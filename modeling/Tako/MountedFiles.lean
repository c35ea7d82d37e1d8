import Mathlib.Data.List.Sort
import Tako.FallibleLoops
import Tako.NetworkKeys
import Tako.WordCodes

/-! The fingerprint of the files that are mounted into a Compose service. -/
namespace Tako.Compose
open Network Codes List
abbrev Bytes := List UInt8

/-- What a path leads to. A directory has the names in the order in which it lists them,
and a symbolic link what it canonicalizes to. -/
inductive Node where
  | file (mode : ℕ) (content : Bytes)
  | directory (listing : List Bytes) (entry : Bytes → Node)
  | symlink (canonical : Option (List Bytes))

def toLeBytes (width n : ℕ) : Bytes := (toBeBytes width n).reverse

def executable (mode : ℕ) : Bool := mode &&& 0o111 ≠ 0

namespace Node
/-- What the digest is updated with. The paths below a directory without symbolic links
are canonical and below it. -/
def hash (root : List Bytes) : Node → Except String Bytes
  | .symlink none => .error "Cannot read a Compose mounted file"
  | .symlink (some canonical) =>
    if ¬root <+: canonical then .error "Compose mounted files must stay inside the app directory"
    else .error "Compose mounted files must not contain symlinks"
  | .directory listing entry =>
    let entries := listing.insertionSort (· ≤ ·)
    entries.foldlM (fun digest name => return digest ++ (name ++ 0 :: (← (entry name).hash root)))
      (utf8 "directory" ++ toLeBytes 8 entries.length)
  | .file mode content =>
    return utf8 "file" ++ (executable mode).toUInt8 :: toLeBytes 8 content.length ++ content
end Node

/-- The path and the app's directory are canonicalized. -/
def hashProjectFile (hexSha256 : Bytes → String) (path : Option (List Bytes))
    (directory : Except String (List Bytes)) (node : Node) : Except String String := do
  let path ← path.elim (.error "Cannot read a Compose bind/config/secret file") .ok
  let root ← directory
  if ¬root <+: path then
    .error "Compose bind/config/secret files must stay inside the app directory"
  else return hexSha256 (← node.hash root)

namespace Node
inductive Kind where
  | file (executable : Bool) (content : Bytes)
  | directory

def find : Node → List Bytes → Option Kind
  | .file mode content, [] => some (.file (executable mode) content)
  | .directory _ _, [] => some .directory
  | .directory listing entry, name :: names =>
    if name ∈ listing then (entry name).find names else none
  | _, _ => none

/-- Directories and regular files. The sizes and the numbers of entries are `u64`. -/
def Regular : Node → Prop
  | .file _ content => content.length < 2 ^ 64
  | .directory listing entry => listing.Nodup ∧ listing.length < 2 ^ 64 ∧
    ∀ name ∈ listing, 0 ∉ name ∧ (entry name).Regular
  | .symlink _ => False

def fed : Node → Bytes
  | .file mode content =>
    utf8 "file" ++ (executable mode).toUInt8 :: toLeBytes 8 content.length ++ content
  | .directory listing entry => utf8 "directory" ++ toLeBytes 8 listing.length ++
    (listing.insertionSort (· ≤ ·)).flatMap fun name => name ++ 0 :: (entry name).fed
  | .symlink _ => []
end Node

section
variable {t t' : Node} {x y : Bytes}
theorem hash_eq (root : List Bytes) (h : t.Regular) : t.hash root = .ok t.fed := by
  induction t with
  | file => rfl
  | symlink => cases h
  | directory listing entry ih =>
    obtain ⟨_, _, hentries⟩ := h
    have hloop := Fallible.foldlM_ok (l := listing.insertionSort (· ≤ ·))
      (f := fun digest name => return digest ++ (name ++ 0 :: (← (entry name).hash root)))
      (fun done digest => digest = utf8 "directory" ++ toLeBytes 8 listing.length ++
        done.flatMap fun name => name ++ 0 :: (entry name).fed) (append_nil _).symm (by
      rintro done name _ hmem rfl
      have hname := (mem_insertionSort _).mp (hmem name mem_concat_self)
      refine ⟨_, Fallible.ok_bind (ih name (hentries name hname).2), ?_⟩
      rw [flatMap_append, flatMap_singleton, append_assoc])
    obtain ⟨_, hhash, rfl⟩ := hloop
    simp only [Node.hash, length_insertionSort]
    exact hhash

theorem toLeBytes_inj {m n : ℕ} (hm : m < 2 ^ 64) (hn : n < 2 ^ 64)
    (h : toLeBytes 8 m ++ x = toLeBytes 8 n ++ y) : m = n ∧ x = y := by
  obtain ⟨hbytes, hxy⟩ := append_inj h (by simp only [toLeBytes, length_reverse, length_toBeBytes])
  have hmod := mod_eq_of_toBeBytes (reverse_inj.mp hbytes)
  exact ⟨by omega, hxy⟩

/-- What is fed to the hash can be read back in one way only. -/
theorem find_of_fed (ht : t.Regular) (ht' : t'.Regular) (h : t.fed ++ x = t'.fed ++ y) :
    (∀ names kind, t.find names = some kind → t'.find names = some kind) ∧ x = y := by
  induction t generalizing t' x y with
  | symlink => cases ht
  | file mode content =>
    cases t' with
    | symlink => cases ht'
    | directory => cases h
    | file mode' content' =>
      simp only [Node.fed, append_assoc, cons_append] at h
      obtain ⟨hmode, h⟩ := cons.inj (append_cancel_left h)
      obtain ⟨hlength, h⟩ := toLeBytes_inj ht ht' h
      obtain ⟨rfl, hxy⟩ := append_inj h hlength
      have hexecutable : executable mode = executable mode' := by
        generalize executable mode = a, executable mode' = b at hmode
        revert hmode
        cases a <;> cases b <;> decide
      refine ⟨fun names kind hkind => ?_, hxy⟩
      cases names with
      | nil => rwa [Node.find, ← hexecutable]
      | cons => cases hkind
  | directory listing entry ih =>
    cases t' with
    | symlink => cases ht'
    | file => cases h
    | directory listing' entry' =>
      simp only [Node.fed, append_assoc] at h
      obtain ⟨hlength, h⟩ := toLeBytes_inj ht.2.1 ht'.2.1 (append_cancel_left h)
      -- an entry is its name up to the zero byte, and then the tree below it
      have hwords (name : Bytes) (hname : name ∈ listing.insertionSort (· ≤ ·)) (name' : Bytes)
          (hname' : name' ∈ listing'.insertionSort (· ≤ ·)) (x y : Bytes)
          (h : name ++ 0 :: (entry name).fed ++ x = name' ++ 0 :: (entry' name').fed ++ y) :
          (name = name' ∧ ∀ names kind, (entry name).find names = some kind →
            (entry' name').find names = some kind) ∧ x = y := by
        obtain ⟨hzero, hentry⟩ := ht.2.2 name ((mem_insertionSort _).mp hname)
        obtain ⟨hzero', hentry'⟩ := ht'.2.2 name' ((mem_insertionSort _).mp hname')
        rw [append_assoc, append_assoc] at h
        obtain ⟨rfl, h⟩ := append_cons_inj hzero hzero' h
        obtain ⟨hbelow, hxy⟩ := ih name hentry hentry' h
        exact ⟨⟨rfl, hbelow⟩, hxy⟩
      obtain ⟨hentries, hxy⟩ := forall_mem_of_flatMap (by simpa using hlength) hwords h
      refine ⟨fun names kind hkind => ?_, hxy⟩
      cases names with
      | nil => exact hkind
      | cons name names =>
        obtain ⟨hname, hkind⟩ := Option.ite_none_right_eq_some.mp hkind
        obtain ⟨_, hname', rfl, hbelow⟩ := hentries name ((mem_insertionSort _).mpr hname)
        exact (if_pos ((mem_insertionSort _).mp hname')).trans (hbelow names kind hkind)

theorem mem_listing {listing listing' : List Bytes} {entry entry' : Bytes → Node} {name : Bytes}
    (ht : (Node.directory listing entry).Regular)
    (h : ∀ names, (Node.directory listing entry).find names =
      (Node.directory listing' entry').find names) (hname : name ∈ listing) : name ∈ listing' := by
  by_contra hother
  have hnone := h [name]
  simp only [Node.find, if_pos hname, if_neg hother] at hnone
  have hregular := (ht.2.2 name hname).2
  cases hentry : entry name <;> rw [hentry] at hnone hregular
  · cases hnone
  · cases hnone
  · cases hregular

theorem fed_of_find (ht : t.Regular) (ht' : t'.Regular)
    (h : ∀ names, t.find names = t'.find names) : t.fed = t'.fed := by
  induction t generalizing t' with
  | symlink => cases ht
  | file mode content =>
    cases t' with
    | symlink => cases ht'
    | directory => cases h []
    | file mode' content' =>
      have hkind := h []
      simp only [Node.find, Option.some.injEq, Node.Kind.file.injEq] at hkind
      simp only [Node.fed, hkind]
  | directory listing entry ih =>
    cases t' with
    | symlink => cases ht'
    | file => cases h []
    | directory listing' entry' =>
      have hmem (name : Bytes) : name ∈ listing ↔ name ∈ listing' :=
        ⟨mem_listing ht h, mem_listing ht' fun names => (h names).symm⟩
      have hperm := (perm_ext_iff_of_nodup ht.1 ht'.1).mpr hmem
      have hsorted : listing.insertionSort (· ≤ ·) = listing'.insertionSort (· ≤ ·) := by
        apply Perm.eq_of_pairwise (fun _ _ _ _ => List.le_antisymm) (pairwise_insertionSort _ _)
          (pairwise_insertionSort _ _)
        exact (perm_insertionSort _ _).trans (hperm.trans (perm_insertionSort _ _).symm)
      simp only [Node.fed, hperm.length_eq, hsorted]
      congr 1
      apply flatMap_congr
      intro name hname
      have hname' := (mem_insertionSort _).mp hname
      have hname := (hmem name).mpr hname'
      rw [ih name (ht.2.2 name hname).2 (ht'.2.2 name hname').2]
      intro names
      have hbelow := h (name :: names)
      simp only [Node.find, if_pos hname, if_pos hname'] at hbelow
      exact hbelow
end

theorem key_eq {hexSha256 : Bytes → String} {path : Option (List Bytes)}
    {directory : Except String (List Bytes)} {t : Node} {key : String} (ht : t.Regular)
    (h : hashProjectFile hexSha256 path directory t = .ok key) : key = hexSha256 t.fed := by
  obtain ⟨_, _, h⟩ := Fallible.bind_eq_ok h
  obtain ⟨root, _, h⟩ := Fallible.bind_eq_ok h
  obtain ⟨_, h⟩ := Fallible.check_eq_ok h
  rw [hash_eq root ht] at h
  exact (Except.ok.inj h).symm

/-- Two trees feed the same bytes exactly if the same is found in them, whatever the order
of the listings, so they have one key only then or by a collision. -/
theorem mounted_files_fingerprint {t t' : Node} (ht : t.Regular) (ht' : t'.Regular) :
    (∀ root, ∃ bytes, t.hash root = .ok bytes) ∧
    (∀ root root', t.hash root = t'.hash root' ↔ ∀ names, t.find names = t'.find names) ∧
    ∀ hexSha256 path path' directory directory' key,
      hashProjectFile hexSha256 path directory t = .ok key →
      hashProjectFile hexSha256 path' directory' t' = .ok key →
      (∀ names, t.find names = t'.find names) ∨ ∃ x y, x ≠ y ∧ hexSha256 x = hexSha256 y := by
  have hfound (h : t.fed = t'.fed) (names : List Bytes) : t.find names = t'.find names := by
    have hboth : t.fed ++ [] = t'.fed ++ [] := by rw [h]
    apply Option.ext
    intro kind
    exact ⟨(find_of_fed ht ht' hboth).1 names kind, (find_of_fed ht' ht hboth.symm).1 names kind⟩
  refine ⟨fun root => ⟨_, hash_eq root ht⟩, fun root root' => ?_, ?_⟩
  · rw [hash_eq root ht, hash_eq root' ht', Except.ok.injEq]
    exact ⟨hfound, fed_of_find ht ht'⟩
  · intro hexSha256 path path' directory directory' key h h'
    have hkey := (key_eq ht h).symm.trans (key_eq ht' h')
    by_cases hfed : t.fed = t'.fed
    · exact .inl (hfound hfed)
    · exact .inr ⟨_, _, hfed, hkey⟩

def site (listing : List Bytes) (content : Bytes) : Node :=
  .directory listing fun _ => .file 0o644 content

theorem mounted_files_fingerprint_site :
    (site [[97], [98]] [1]).hash [] = (site [[98], [97]] [1]).hash [] ∧
      (site [[97], [98]] [1]).hash [] ≠ (site [[98], [97]] [2]).hash [] := by
  have hsite (a b content : UInt8) (h : a ≠ b ∧ a ≠ 0 ∧ b ≠ 0) :
      (site [[a], [b]] [content]).Regular := by
    simp [site, Node.Regular, h, Ne.symm]
  have hboth (content : UInt8) := mounted_files_fingerprint (hsite 97 98 1 (by decide))
    (hsite 98 97 content (by decide))
  constructor
  · apply ((hboth 1).2.1 _ _).mpr
    intro names
    cases names <;> simp [site, Node.find, or_comm]
  · intro h
    have hkind := ((hboth 2).2.1 _ _).mp h [[97]]
    simp [site, Node.find] at hkind

end Tako.Compose
