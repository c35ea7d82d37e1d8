import Tako.NetworkRegistry
import Tako.Texts

/-! The private host names of a network: how the name of an app is written and how
the authority of a request is read back. -/
namespace Tako.Network
open Texts List
def hexDigits : Text := "0123456789abcdef".toList

def hexByte (b : UInt8) : Text :=
  [hexDigits.getD (b.toNat / 16) '0', hexDigits.getD (b.toNat % 16) '0']

/-- The `Display` of an id: lower case hex. -/
def NetworkId.display (network : NetworkId) : Text := network.bytes.toList.flatMap hexByte

def isSegmentChar (c : Char) : Bool := c.isLower || c.isDigit || c = '-' || c = '_'

def segment (s : Text) : Bool :=
  !s.isEmpty && byteLength s ≤ 63 && s.head?.any Char.isLower && s.all isSegmentChar

variable {c : Char} {s : Text} {network : NetworkId}
namespace AppEnv
def parts (s : Text) : Option (Text × Text) :=
  (splitOnce '/' s).filter fun (app, env) => segment app && segment env

def fromStr (s : Text) : Option AppEnv := (parts s).map fun _ => ⟨String.ofList s⟩

def Valid (app : AppEnv) : Prop := fromStr app.text.toList = some app
end AppEnv

def internalDomain : Text := "tako.internal".toList

/-- It panics for an app that was not validated. -/
def serviceHostname (app : AppEnv) (network : NetworkId) : Option Text :=
  (splitOnce '/' app.text.toList).map fun (app, env) =>
    app ++ '.' :: (env ++ '.' :: (network.display ++ '.' :: internalDomain))

inductive ServiceHost where
  | publicHost
  | reserved
  | app (scope : AppEnv)
deriving DecidableEq

variable (authority : Text)
def hostOf : Text :=
  match splitOnce ':' authority with
  | some (host, _) => host
  | none => authority

/-- The host without white space around it and dots behind it, in lower case. -/
def canonicalHost : Text :=
  lower ((trim (hostOf authority)).rdropWhile (· == '.'))

def isInternal (host : Text) : Bool :=
  host == internalDomain || ('.' :: internalDomain).isSuffixOf host

/-- `u8::is_ascii_whitespace`, which does not count the vertical tab. -/
def isAsciiWhitespace (c : Char) : Bool :=
  c = ' ' || c = '\t' || c = '\n' || c = '\x0c' || c = '\r'

/-- Digits that `parse::<u16>` accepts. -/
def isPort (port : Text) : Bool :=
  !port.isEmpty && port.all Char.isDigit && Nat.ofDigitChars 10 port 0 ≤ 65535

def classifyHost (network : NetworkId) : ServiceHost :=
  let host := canonicalHost authority
  if isInternal host = false then .publicHost
  else if 254 < byteLength authority || authority.any isAsciiWhitespace ||
      (splitOnce ':' authority).any (fun (_, port) => !isPort port) then .reserved
  else
    match ('.' :: (network.display ++ '.' :: internalDomain)).isSuffixOf? host with
    | none => .reserved
    | some labels =>
      match splitOnce '.' labels with
      | none => .reserved
      | some (app, env) =>
        match AppEnv.fromStr (app ++ '/' :: env) with
        | some scope => .app scope
        | none => .reserved

/-- The test of the proxy before it asks the directory. -/
def reservedHost : Bool :=
  let host := (trim (hostOf authority)).rdropWhile (· == '.')
  lower host == internalDomain || ('.' :: internalDomain).isSuffixOf (lower host)

theorem reservedHost_eq : reservedHost authority = isInternal (canonicalHost authority) := rfl

variable {authority : Text}
theorem classifyHost_eq_publicHost_iff :
    classifyHost authority network = .publicHost ↔
      isInternal (canonicalHost authority) = false := by
  constructor
  · intro h
    by_contra hinternal
    rw [classifyHost, if_neg hinternal] at h
    split at h
    · cases h
    · split at h
      · cases h
      · split at h
        · cases h
        · split at h <;> cases h
  · intro h
    rw [classifyHost, if_pos h]

/-- A name of the private domain, in any case, with dots behind it and white space
around it. -/
def PrivateName (hostname : Text) : Prop :=
  ∃ lead name dots trail, lower hostname = lead ++ (name ++ dots) ++ trail ∧
    (∀ c ∈ lead, isWhitespace c = true) ∧ (∀ c ∈ trail, isWhitespace c = true) ∧
    (∀ c ∈ dots, c = '.') ∧
    (name = internalDomain ∨ ('.' :: internalDomain) <:+ name)

theorem isWhitespace_toLower (c : Char) : isWhitespace c.toLower = isWhitespace c := by
  unfold Char.toLower
  split
  · rename_i hupper
    have hle : 65 ≤ c.toNat := UInt32.le_iff_toNat_le.mp hupper.1
    have hge : c.toNat ≤ 90 := UInt32.le_iff_toNat_le.mp hupper.2
    have hshift : ('a'.val - 'A'.val).toNat = 32 := rfl
    have hval : (c.val + ('a'.val - 'A'.val)).toNat = c.toNat + 32 := by
      rw [UInt32.toNat_add, hshift]
      change (c.toNat + 32) % 2 ^ 32 = c.toNat + 32
      omega
    have hspace (n : ℕ) (hlow : 65 ≤ n) (hhigh : n ≤ 122) :
        ((9 ≤ n && n ≤ 13) || n = 32 || n = 0x85 || n = 0xa0 || n = 0x1680 ||
          (0x2000 ≤ n && n ≤ 0x200a) || n = 0x2028 || n = 0x2029 || n = 0x202f || n = 0x205f ||
          n = 0x3000) = false := by
      simp only [Bool.or_eq_false_iff, Bool.and_eq_false_iff, decide_eq_false_iff_not]
      omega
    have hafter := hspace (c.toNat + 32) (by omega) (by omega)
    have hbefore := hspace c.toNat (by omega) (by omega)
    rw [isWhitespace, isWhitespace]
    simp only [Char.toNat, hval]
    exact hafter.trans hbefore.symm
  · rfl

theorem canonicalHost_eq (authority : Text) :
    canonicalHost authority = (trim (lower (hostOf authority))).rdropWhile (· == '.') := by
  unfold canonicalHost trim
  rw [lower_rdropWhile dot_toLower]
  congr 1
  change lower (((hostOf authority).dropWhile isWhitespace).rdropWhile isWhitespace) = _
  rw [lower_rdropWhile isWhitespace_toLower, lower_dropWhile isWhitespace_toLower]
  rfl

theorem trim_rdropWhile {lead front dots trail back : Text} {l : Char} (hc : isWhitespace c = false)
    (hlast : (c :: back).getLast? = some l) (hl : isWhitespace l = false) (hl' : l ≠ '.')
    (hdots : ∀ d ∈ dots, d = '.') (htrail : ∀ d ∈ trail, isWhitespace d = true) :
    (trim (lead ++ (front ++ c :: back ++ dots) ++ trail)).rdropWhile (· == '.') =
      (lead ++ front).dropWhile isWhitespace ++ c :: back := by
  set kept := (lead ++ front).dropWhile isWhitespace
  have hfront : (lead ++ (front ++ c :: back ++ dots) ++ trail).dropWhile isWhitespace =
      kept ++ c :: back ++ dots ++ trail := by
    have hassoc : lead ++ (front ++ c :: back ++ dots) ++ trail =
        lead ++ front ++ c :: (back ++ dots ++ trail) := by simp
    rw [hassoc, dropWhile_append_cons hc]
    simp [kept]
  have hend : (kept ++ c :: back).getLast? = some l := by
    rw [getLast?_append, hlast, Option.some_or]
  have hback : (kept ++ c :: back ++ dots).rdropWhile isWhitespace = kept ++ c :: back ++ dots := by
    cases hd : dots.getLast? with
    | none =>
      rw [getLast?_eq_none_iff.mp hd, append_nil]
      exact rdropWhile_eq_self_of_getLast? hend hl
    | some d =>
      have hdot : d = '.' := hdots d (mem_of_getLast? hd)
      have hdlast : (kept ++ c :: back ++ dots).getLast? = some d := by
        rw [getLast?_append, hd, Option.some_or]
      exact rdropWhile_eq_self_of_getLast? hdlast (by rw [hdot]; decide)
  calc (trim (lead ++ (front ++ c :: back ++ dots) ++ trail)).rdropWhile (· == '.')
      = ((kept ++ c :: back ++ dots ++ trail).rdropWhile isWhitespace).rdropWhile (· == '.') := by
        rw [← hfront]
        rfl
    _ = (kept ++ c :: back ++ dots).rdropWhile (· == '.') := by
        rw [rdropWhile_append_of_all htrail, hback]
    _ = (kept ++ c :: back).rdropWhile (· == '.') :=
        rdropWhile_append_of_all fun d hd => by simp [hdots d hd]
    _ = kept ++ c :: back := rdropWhile_eq_self_of_getLast? hend (by simpa using hl')

theorem isInternal_of_privateName (h : PrivateName (hostOf authority)) :
    isInternal (canonicalHost authority) = true := by
  obtain ⟨lead, _, dots, trail, hlower, hlead, htrail, hdots, hname⟩ := h
  rw [canonicalHost_eq, hlower]
  obtain rfl | ⟨front, rfl⟩ := hname
  · have htrim : (trim (lead ++ ([] ++ 't' :: "ako.internal".toList ++ dots) ++ trail)).rdropWhile
        (· == '.') = (lead ++ []).dropWhile isWhitespace ++ 't' :: "ako.internal".toList :=
      trim_rdropWhile (l := 'l') (by decide) (by decide) (by decide) (by decide) hdots htrail
    have hnone : lead.dropWhile isWhitespace = [] := dropWhile_eq_nil_iff.mpr hlead
    have hdomain : internalDomain = [] ++ 't' :: "ako.internal".toList := rfl
    rw [hdomain, htrim, append_nil, hnone]
    decide
  · have htrim : (trim (lead ++ (front ++ '.' :: internalDomain ++ dots) ++ trail)).rdropWhile
        (· == '.') = (lead ++ front).dropWhile isWhitespace ++ '.' :: internalDomain :=
      trim_rdropWhile (l := 'l') (by decide) (by decide) (by decide) (by decide) hdots htrail
    rw [htrim, isInternal, Bool.or_eq_true]
    right
    exact isSuffixOf_iff_suffix.mpr (suffix_append _ _)

theorem trim_eq_self (h : ∀ c ∈ s, isWhitespace c = false) : trim s = s := by
  have hfront : s.dropWhile isWhitespace = s := by
    cases s with
    | nil => rfl
    | cons c => exact dropWhile_cons_of_neg (by simp [h c mem_cons_self])
  have hback : s.rdropWhile isWhitespace = s := by
    rw [rdropWhile_eq_self_iff]
    intro hs
    simp [h _ (getLast_mem hs)]
  unfold trim
  rw [hfront]
  exact hback

section
def isHostChar (c : Char) : Bool := isSegmentChar c || c = '.'

/-- Such a character is an ASCII character between the hyphen and the letter z, and
not an upper case letter, a slash or a colon. -/
structure Plain (c : Char) : Prop where
  low : 45 ≤ c.toNat
  high : c.toNat ≤ 122
  upper : ¬(65 ≤ c.toNat ∧ c.toNat ≤ 90)
  slash : c.toNat ≠ 47
  colon : c.toNat ≠ 58

theorem plain_of_isHostChar (h : isHostChar c = true) : Plain c := by
  simp only [isHostChar, isSegmentChar, isLower_iff, Char.isDigit, Bool.or_eq_true,
    Bool.and_eq_true, decide_eq_true_eq, UInt32.le_iff_toNat_le, ge_iff_le] at h
  change ((((97 ≤ c.toNat ∧ c.toNat ≤ 122) ∨ (48 ≤ c.toNat ∧ c.toNat ≤ 57)) ∨ c = '-') ∨
    c = '_') ∨ c = '.' at h
  rcases h with (((h | h) | rfl) | rfl) | rfl
  · constructor <;> omega
  · constructor <;> omega
  · constructor <;> decide
  · constructor <;> decide
  · constructor <;> decide

theorem Plain.toLower (h : Plain c) : c.toLower = c := by
  unfold Char.toLower
  split
  · rename_i hupper
    have hle : 65 ≤ c.toNat := UInt32.le_iff_toNat_le.mp hupper.1
    have hge : c.toNat ≤ 90 := UInt32.le_iff_toNat_le.mp hupper.2
    exact absurd ⟨hle, hge⟩ h.upper
  · rfl

theorem Plain.isWhitespace (h : Plain c) : isWhitespace c = false := by
  have hlow := h.low
  have hhigh := h.high
  simp only [Network.isWhitespace, Bool.or_eq_false_iff, Bool.and_eq_false_iff,
    decide_eq_false_iff_not]
  omega

theorem Plain.ne {d : Char} (h : Plain c) (hd : d.toNat < 45 ∨ d.toNat = 47 ∨ d.toNat = 58) :
    c ≠ d := by
  rintro rfl
  have hlow := h.low
  have hslash := h.slash
  have hcolon := h.colon
  omega

theorem Plain.utf8Size (h : Plain c) : c.utf8Size = 1 := by
  rw [Char.utf8Size_eq_one_iff, UInt32.le_iff_toNat_le]
  have hhigh := h.high
  change c.toNat ≤ 127
  omega

theorem isHostChar_hex {b : UInt8} (h : c ∈ hexByte b) : isHostChar c = true := by
  have hdigits : ∀ d ∈ hexDigits, isHostChar d = true := all_eq_true.mp rfl
  have hget (i : ℕ) : isHostChar (hexDigits.getD i '0') = true := by
    rw [getD_eq_getElem?_getD]
    cases hi : hexDigits[i]? with
    | none => rfl
    | some d => exact hdigits d (mem_of_getElem? hi)
  simp only [hexByte, mem_cons, not_mem_nil, or_false] at h
  obtain rfl | rfl := h
  · exact hget _
  · exact hget _

theorem isHostChar_display (h : c ∈ network.display) :
    isHostChar c = true := by
  obtain ⟨b, _, hb⟩ := mem_flatMap.mp h
  exact isHostChar_hex hb

theorem isHostChar_segment (hs : segment s = true) (h : c ∈ s) : isHostChar c = true := by
  simp only [segment, Bool.and_eq_true, all_eq_true] at hs
  simp only [isHostChar, hs.2 c h, Bool.true_or]

theorem segment_not_mem (hs : segment s = true) {d : Char} (hd : isSegmentChar d = false) :
    d ∉ s := by
  intro h
  simp only [segment, Bool.and_eq_true, all_eq_true] at hs
  rw [hs.2 d h] at hd
  cases hd

theorem byteLength_eq_length (h : ∀ c ∈ s, Plain c) : byteLength s = s.length := by
  induction s with
  | nil => rfl
  | cons c s ih =>
    have hc := (h c mem_cons_self).utf8Size
    have hs := ih fun d hd => h d (mem_cons_of_mem c hd)
    simp only [byteLength, map_cons, sum_cons, hc, length_cons] at hs ⊢
    omega

theorem length_display (network : NetworkId) : network.display.length = 32 := by
  have hlist (bytes : List UInt8) : (bytes.flatMap hexByte).length = 2 * bytes.length := by
    induction bytes with
    | nil => rfl
    | cons b bytes ih =>
      rw [flatMap_cons, length_append, ih, length_cons]
      change 2 + 2 * bytes.length = _
      omega
  rw [NetworkId.display, hlist, Vector.length_toList]
end

section
variable {app env : Text}
def privateHost (app env : Text) (network : NetworkId) : Text :=
  app ++ '.' :: (env ++ '.' :: (network.display ++ '.' :: internalDomain))

theorem privateHost_append (app env : Text) (network : NetworkId) : privateHost app env network =
      (app ++ '.' :: env) ++ '.' :: (network.display ++ '.' :: internalDomain) := by
  simp [privateHost]

theorem plain_privateHost (happ : segment app = true) (henv : segment env = true)
    (h : c ∈ privateHost app env network) : Plain c := by
  have hdot : isHostChar '.' = true := by decide
  have hdomain : ∀ d ∈ internalDomain, isHostChar d = true := all_eq_true.mp rfl
  apply plain_of_isHostChar
  simp only [privateHost, mem_append, mem_cons] at h
  rcases h with h | rfl | h | rfl | h | rfl | h
  · exact isHostChar_segment happ h
  · exact hdot
  · exact isHostChar_segment henv h
  · exact hdot
  · exact isHostChar_display h
  · exact hdot
  · exact hdomain c h

theorem length_segment (h : segment s = true) : s.length ≤ 63 := by
  have hplain (c : Char) (hc : c ∈ s) : Plain c := plain_of_isHostChar (isHostChar_segment h hc)
  have hbytes := byteLength_eq_length hplain
  simp only [segment, Bool.and_eq_true, decide_eq_true_eq] at h
  omega

theorem byteLength_privateHost (happ : segment app = true) (henv : segment env = true) :
    byteLength (privateHost app env network) ≤ 174 := by
  rw [byteLength_eq_length fun c hc => plain_privateHost happ henv hc]
  have hdomain : internalDomain.length = 13 := rfl
  have happ' := length_segment happ
  have henv' := length_segment henv
  simp only [privateHost, length_append, length_cons, length_display, hdomain]
  omega

theorem canonicalHost_privateHost (happ : segment app = true) (henv : segment env = true)
    (h : hostOf authority = privateHost app env network) :
    canonicalHost authority = privateHost app env network := by
  have hplain (c : Char) (hc : c ∈ privateHost app env network) := plain_privateHost happ henv hc
  have hlower : lower (privateHost app env network) = privateHost app env network :=
    (map_congr_left fun c hc => (hplain c hc).toLower).trans (map_id _)
  have hlast : (privateHost app env network).getLast? = some 'l' := by
    rw [privateHost_append, getLast?_append, getLast?_cons, getLast?_append]
    rfl
  rw [canonicalHost_eq, h, hlower, trim_eq_self fun c hc => (hplain c hc).isWhitespace]
  exact rdropWhile_eq_self_of_getLast? hlast (by decide)

theorem classifyHost_privateHost (happ : segment app = true) (henv : segment env = true)
    (hhost : hostOf authority = privateHost app env network) (hlength : byteLength authority ≤ 254)
    (hspace : authority.any isAsciiWhitespace = false)
    (hport : (splitOnce ':' authority).any (fun (_, port) => !isPort port) = false) :
    classifyHost authority network = .app ⟨String.ofList (app ++ '/' :: env)⟩ := by
  have hinternal : isInternal (privateHost app env network) = true := by
    rw [isInternal, Bool.or_eq_true]
    right
    rw [isSuffixOf_iff_suffix]
    refine ⟨app ++ '.' :: (env ++ '.' :: network.display), ?_⟩
    simp [privateHost]
  have hlabels : ('.' :: (network.display ++ '.' :: internalDomain)).isSuffixOf?
      (privateHost app env network) = some (app ++ '.' :: env) :=
    isSuffixOf?_eq_some_iff_append_eq.mpr (privateHost_append app env network).symm
  have hdot : splitOnce '.' (app ++ '.' :: env) = some (app, env) :=
    splitOnce_eq_some_iff.mpr ⟨rfl, segment_not_mem happ (by decide)⟩
  have hslash : splitOnce '/' (app ++ '/' :: env) = some (app, env) :=
    splitOnce_eq_some_iff.mpr ⟨rfl, segment_not_mem happ (by decide)⟩
  have hscope : AppEnv.fromStr (app ++ '/' :: env) =
      some ⟨String.ofList (app ++ '/' :: env)⟩ := by
    simp [AppEnv.fromStr, AppEnv.parts, hslash, happ, henv]
  have hlong : ¬254 < byteLength authority := by omega
  simp only [classifyHost, canonicalHost_privateHost happ henv hhost, hinternal, hlong, hspace,
    hport, hlabels, hdot, hscope, Bool.true_eq_false, if_false, decide_false, Bool.or_self,
    Bool.false_eq_true]

variable {scope : AppEnv}
theorem fromStr_eq_some (h : AppEnv.fromStr (app ++ '/' :: env) = some scope) :
    segment app = true ∧ segment env = true ∧ scope.text.toList = app ++ '/' :: env := by
  obtain ⟨parts, hparts, rfl⟩ := Option.map_eq_some_iff.mp h
  obtain ⟨hsplit, hsegments⟩ := Option.filter_eq_some_iff.mp hparts
  obtain ⟨_, env'⟩ := parts
  simp only [Bool.and_eq_true] at hsegments
  obtain ⟨happend, happ'⟩ := splitOnce_eq_some_iff.mp hsplit
  have henv' : '/' ∉ env' := segment_not_mem hsegments.2 (by decide)
  have hcount := congrArg (List.count '/') happend
  simp only [count_append, count_cons_self, count_eq_zero.mpr happ',
    count_eq_zero.mpr henv'] at hcount
  have happ : '/' ∉ app := count_eq_zero.mp (by omega)
  have hsame := splitOnce_eq_some_iff.mpr ⟨rfl, happ⟩ |>.symm.trans hsplit
  obtain ⟨rfl, rfl⟩ := Prod.mk.inj (Option.some.inj hsame)
  exact ⟨hsegments.1, hsegments.2, String.toList_ofList⟩

theorem classifyHost_eq_app (h : classifyHost authority network = .app scope) :
    ∃ app env, segment app = true ∧ segment env = true ∧ scope.text.toList = app ++ '/' :: env ∧
      canonicalHost authority = privateHost app env network ∧
      authority.any isAsciiWhitespace = false := by
  simp only [classifyHost] at h
  split at h
  · cases h
  split at h
  · cases h
  rename_i hchecks
  cases hlabels : ('.' :: (network.display ++ '.' :: internalDomain)).isSuffixOf?
      (canonicalHost authority) with
  | none => simp only [hlabels, reduceCtorEq] at h
  | some labels =>
    cases hsplit : splitOnce '.' labels with
    | none => simp only [hlabels, hsplit, reduceCtorEq] at h
    | some parts =>
      obtain ⟨app, env⟩ := parts
      cases hscope : AppEnv.fromStr (app ++ '/' :: env) with
      | none => simp only [hlabels, hsplit, hscope, reduceCtorEq] at h
      | some =>
        simp only [hlabels, hsplit, hscope, ServiceHost.app.injEq] at h
        subst h
        obtain ⟨happ, henv, htext⟩ := fromStr_eq_some hscope
        refine ⟨app, env, happ, henv, htext, ?_, ?_⟩
        · have hhost := isSuffixOf?_eq_some_iff_append_eq.mp hlabels
          rw [(splitOnce_eq_some_iff.mp hsplit).1] at hhost
          rw [← hhost, privateHost_append]
        · simp only [Bool.or_eq_true, not_or, Bool.not_eq_true] at hchecks
          exact hchecks.1.2

theorem canonicalHost_eq_of_app {a b : Text} (ha : classifyHost a network = .app scope)
    (hb : classifyHost b network = .app scope) : canonicalHost a = canonicalHost b := by
  obtain ⟨_, _, happ, _, htext, hhost, _⟩ := classifyHost_eq_app ha
  obtain ⟨_, _, happ', _, htext', hhost', _⟩ := classifyHost_eq_app hb
  have hsplit := splitOnce_eq_some_iff.mpr ⟨htext, segment_not_mem happ (by decide)⟩
  rw [splitOnce_eq_some_iff.mpr ⟨htext', segment_not_mem happ' (by decide)⟩] at hsplit
  obtain ⟨rfl, rfl⟩ := Prod.mk.inj (Option.some.inj hsplit)
  rw [hhost, hhost']
end

end Tako.Network
