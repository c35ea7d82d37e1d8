import Tako.NetworkKeys
import Tako.WordCodes

/-! The keys under which transformed images are cached. The fields of a request are hashed with
markers in between. -/
namespace Tako.Images
open Network Codes List
abbrev Bytes := List UInt8

inductive OutputFormat where
  | avif | webp
deriving DecidableEq

inductive ImageFit where
  | cover | contain
deriving DecidableEq

inductive ImageCrop where
  | center | smart
deriving DecidableEq

@[ext]
structure TransformOptions where
  format : OutputFormat
  width : UInt32
  height : Option UInt32
  fit : Option ImageFit
  crop : Option ImageCrop
  quality : UInt8

def outputFormatCode : OutputFormat → String
  | .avif => "avif"
  | .webp => "webp"

def fitCode : ImageFit → String
  | .cover => "cover"
  | .contain => "contain"

def cropCode : ImageCrop → String
  | .center => "center"
  | .smart => "smart"

/-- How many bytes follow the first one of a character, and the bounds of the second. -/
def following (first : UInt8) : Option (ℕ × UInt8 × UInt8) :=
  if first < 0x80 then some (0, 0x80, 0xbf)
  else if first < 0xc2 then none
  else if first < 0xe0 then some (1, 0x80, 0xbf)
  else if first < 0xf0 then
    some (2, if first = 0xe0 then 0xa0 else 0x80, if first = 0xed then 0x9f else 0xbf)
  else if first < 0xf5 then
    some (3, if first = 0xf0 then 0x90 else 0x80, if first = 0xf4 then 0x8f else 0xbf)
  else none

/-- The bytes that go on a character. -/
def continued (low high : UInt8) : ℕ → Bytes → Bytes
  | n + 1, byte :: rest =>
    if low ≤ byte ∧ byte ≤ high then byte :: continued 0x80 0xbf n rest else []
  | _, _ => []

def replacement : Bytes := [0xef, 0xbf, 0xbd]

/-- `to_string_lossy` puts the replacement character for the longest start of a
character, and for a byte that starts none. -/
def toStringLossy : Bytes → Bytes
  | [] => []
  | first :: rest =>
    match following first with
    | none => replacement ++ toStringLossy rest
    | some (n, low, high) =>
      let more := continued low high n rest
      (if more.length = n then first :: more else replacement) ++
        toStringLossy (rest.drop more.length)
termination_by bytes => bytes.length
decreasing_by all_goals simp; try omega

def cacheVersion : String := "tako-image-transform-v1"

/-- What `transform_cache_key` gets. The name is in UTF-8. -/
@[ext]
structure Request where
  appName : Bytes
  appRoot : Bytes
  source : Bytes
  options : TransformOptions

def Request.hashed (r : Request) : Bytes :=
  utf8 cacheVersion ++ utf8 "\napp\n" ++ r.appName ++ utf8 "\nroot\n" ++ toStringLossy r.appRoot ++
    utf8 "\nsource\n" ++ r.source ++
    (utf8 "\nformat\n" ++ utf8 (outputFormatCode r.options.format)) ++
    utf8 "\nwidth\n" ++ toBeBytes 4 r.options.width.toNat ++
    utf8 "\nheight\n" ++ toBeBytes 4 (r.options.height.getD 0).toNat ++
    (utf8 "\nfit\n" ++ utf8 ((r.options.fit.map fitCode).getD "")) ++
    (utf8 "\ncrop\n" ++ utf8 ((r.options.crop.map cropCode).getD "")) ++
    utf8 "\nquality\n" ++ [r.options.quality]

/-- The hash and its text in hexadecimal digits are those of the crates. -/
def transformCacheKey (hexSha256 : Bytes → String) (r : Request) : String := hexSha256 r.hashed

structure Request.Delimited (r : Request) : Prop where
  name : 10 ∉ r.appName
  root : 10 ∉ r.appRoot
  height : r.options.height ≠ some 0

structure Request.Plain (r : Request) : Prop extends r.Delimited where
  utf8 : toStringLossy r.appRoot = r.appRoot

/-- What the key keeps of a request. -/
def Request.read (r : Request) : Request := { r with appRoot := toStringLossy r.appRoot }

theorem toBeBytes_inj {m n : UInt32} (h : toBeBytes 4 m.toNat = toBeBytes 4 n.toNat) : m = n := by
  have hmod := mod_eq_of_toBeBytes h
  have hm := m.toNat_lt
  have hn := n.toNat_lt
  exact UInt32.toNat_inj.mp (by omega)

theorem getD_inj {a b : Option UInt32} (ha : a ≠ some 0) (hb : b ≠ some 0)
    (h : a.getD 0 = b.getD 0) : a = b := by
  cases a <;> cases b <;> simp_all

variable {x y x' y' : Bytes}
theorem line_inj {marker : Bytes} (hx : 10 ∉ x) (hy : 10 ∉ y)
    (h : x ++ (10 :: marker ++ x') = y ++ (10 :: marker ++ y')) : x = y ∧ x' = y' := by
  obtain ⟨hfield, hrest⟩ := append_cons_inj hx hy h
  exact ⟨hfield, append_cancel_left hrest⟩

theorem continued_subset {low high : UInt8} {n : ℕ} {bytes : Bytes} :
    continued low high n bytes ⊆ bytes := by
  induction bytes generalizing low high n with
  | nil => cases n <;> simp [continued]
  | cons byte rest ih =>
    cases n with
    | zero => simp [continued]
    | succ n =>
      rw [continued]
      split_ifs
      · exact cons_subset_cons byte ih
      · exact nil_subset _

/-- No line break is added, since none is in the replacement. -/
theorem mem_toStringLossy {byte : UInt8} {bytes : Bytes} (h : byte ∈ toStringLossy bytes) :
    byte ∈ replacement ∨ byte ∈ bytes := by
  fun_induction toStringLossy bytes with
  | case1 => exact .inr h
  | case2 first rest _ ih =>
    obtain h | h := mem_append.mp h
    · exact .inl h
    · exact (ih h).imp_right (mem_cons_of_mem first)
  | case3 first rest n low high _ more ih =>
    obtain h | h := mem_append.mp h
    · split_ifs at h
      · exact .inr (cons_subset_cons first continued_subset h)
      · exact .inl h
    · exact (ih h).imp_right fun h => mem_cons_of_mem first (mem_of_mem_drop h)

theorem Request.Delimited.lossy {r : Request} (h : r.Delimited) :
    10 ∉ toStringLossy r.appRoot := by
  intro hbreak
  exact (mem_toStringLossy hbreak).elim (by decide) h.root

/-- The fields after the source are read from the end, and those before it from the
front. -/
theorem hashed_inj {r r' : Request} (hr : r.Delimited) (hr' : r'.Delimited)
    (h : r.hashed = r'.hashed) : r.read = r'.read := by
  unfold Request.hashed at h
  obtain ⟨h, hquality⟩ := append_inj' h rfl
  obtain ⟨h, hcrop⟩ := append_inj_of_getLast? (f := fun crop : Option ImageCrop =>
    utf8 "\ncrop\n" ++ utf8 ((crop.map cropCode).getD "")) (by rintro (_ | _ | _) <;> decide)
    (by rintro (_ | _ | _) (_ | _ | _) <;> decide) (append_cancel_right h)
  obtain ⟨h, hfit⟩ := append_inj_of_getLast? (f := fun fit : Option ImageFit =>
    utf8 "\nfit\n" ++ utf8 ((fit.map fitCode).getD "")) (by rintro (_ | _ | _) <;> decide)
    (by rintro (_ | _ | _) (_ | _ | _) <;> decide) h
  obtain ⟨h, hheight⟩ := append_inj' h (by simp only [length_toBeBytes])
  obtain ⟨h, hwidth⟩ := append_inj' (append_cancel_right h) (by simp only [length_toBeBytes])
  obtain ⟨h, hformat⟩ := append_inj_of_getLast? (f := fun format =>
    utf8 "\nformat\n" ++ utf8 (outputFormatCode format)) (by rintro (_ | _) <;> decide)
    (by rintro (_ | _) (_ | _) <;> decide) (append_cancel_right h)
  simp only [append_assoc] at h
  obtain ⟨hname, h⟩ := line_inj hr.name hr'.name (append_cancel_left (append_cancel_left h))
  obtain ⟨hroot, h⟩ := line_inj hr.lossy hr'.lossy h
  have hheight := getD_inj hr.height hr'.height (toBeBytes_inj hheight)
  exact Request.ext hname hroot h (TransformOptions.ext hformat (toBeBytes_inj hwidth)
    hheight hfit hcrop (cons.inj hquality).1)

theorem Request.Plain.read_eq {r : Request} (h : r.Plain) : r.read = r :=
  Request.ext rfl h.utf8 rfl rfl

/-- Two requests with one key are the same one but for what is replaced in their roots, or the
hash has a collision. -/
theorem transform_cache_key_determines {r r' : Request} (hr : r.Delimited) (hr' : r'.Delimited) :
    (r.hashed = r'.hashed → r.read = r'.read) ∧
    (∀ hexSha256, transformCacheKey hexSha256 r = transformCacheKey hexSha256 r' →
      r.read = r'.read ∨ ∃ x y, x ≠ y ∧ hexSha256 x = hexSha256 y) ∧
    (r.Plain → r'.Plain → (r.hashed = r'.hashed → r = r') ∧ ∀ hexSha256,
      transformCacheKey hexSha256 r = transformCacheKey hexSha256 r' →
        r = r' ∨ ∃ x y, x ≠ y ∧ hexSha256 x = hexSha256 y) := by
  have hkeys (hexSha256 : Bytes → String)
      (hkey : transformCacheKey hexSha256 r = transformCacheKey hexSha256 r') :
      r.read = r'.read ∨ ∃ x y, x ≠ y ∧ hexSha256 x = hexSha256 y := by
    by_cases h : r.hashed = r'.hashed
    · exact .inl (hashed_inj hr hr' h)
    · exact .inr ⟨_, _, h, hkey⟩
  refine ⟨hashed_inj hr hr', hkeys, fun hplain hplain' => ⟨fun h => ?_, fun hexSha256 hkey => ?_⟩⟩
  · rw [← hplain.read_eq, hashed_inj hr hr' h, hplain'.read_eq]
  · refine (hkeys hexSha256 hkey).imp_left fun h => ?_
    rw [← hplain.read_eq, h, hplain'.read_eq]

def photo (appRoot source : Bytes) : Request where
  appName := utf8 "demo"
  appRoot := appRoot
  source := source
  options := ⟨.webp, 640, none, some .cover, none, 75⟩

/-- The source ends as the fields after it go on. -/
theorem transform_cache_key_determines_marker :
    (photo [47] [1]).hashed ≠ (photo [47] ([1] ++ utf8 "
format
webp")).hashed := by
  have hplain (source : Bytes) : (photo [47] source).Plain :=
    ⟨⟨(by decide : 10 ∉ utf8 "demo"), by simp [photo], nofun⟩,
      by simp [photo, toStringLossy, following, continued]⟩
  intro h
  obtain ⟨-, -, hinj⟩ := transform_cache_key_determines (hplain [1]).toDelimited
    (hplain ([1] ++ utf8 "\nformat\nwebp")).toDelimited
  exact absurd ((hinj (hplain _) (hplain _)).1 h) (by simp [photo]; decide)

/-- The bytes of the two roots that belong to no text are replaced. -/
theorem transformCacheKey_replaced_root :
    photo [47, 0xff] [] ≠ photo [47, 0xfe] [] ∧ ∀ hexSha256,
      transformCacheKey hexSha256 (photo [47, 0xff] []) =
        transformCacheKey hexSha256 (photo [47, 0xfe] []) := by
  have hlossy (byte : UInt8) (h : following byte = none) :
      toStringLossy [47, byte] = 47 :: replacement := by
    have hslash : following 47 = some (0, 0x80, 0xbf) := rfl
    simp [toStringLossy, continued, hslash, h]
  refine ⟨by simp [photo], fun hexSha256 => congrArg hexSha256 ?_⟩
  unfold Request.hashed photo
  rw [hlossy _ rfl, hlossy _ rfl]

end Tako.Images
