import Tako.Base64Url
import Tako.WorkflowRows

/-! Replay cursors of the channel store and their text. A cursor of the SQLite
store names the replay epoch, the stream and a position. -/
namespace Tako.Channel
open Tako.Workflow (JsonCodec i64Max i64Min)
inductive ChannelError where
  | invalidPath
  | unsupported
  | unauthorized
  | forbidden
  | notDefined
  | staleCursor
  | badRequest (message : String)
  | authUnavailable
  | storage (message : String)
deriving DecidableEq, Repr

/-- `[u8; 16]`, an epoch or the digest of a stream. -/
abbrev Bytes16 := Vector UInt8 16

/-- What the store calls in other crates. `rereads` is what `serde_json` does
with a value that it parsed: the text it prints is valid and not nested deeper
than the text it came from, so it parses again (a float may lose a bit). -/
structure Crates where
  json : JsonCodec
  parseError : String → String
  sha256 : String → Vector UInt8 32
  rereads : ∀ text v, json.fromStr text = some v → ∃ w, json.fromStr (json.toStr v) = some w

structure ReplayCursor where
  scope : Option (Bytes16 × Bytes16)
  position : ℤ
deriving DecidableEq

/-- `URL_SAFE_NO_PAD.encode`. -/
def encode (bytes : Bytes16) : String := String.ofList (Base64Url.encode bytes.toList)

namespace ReplayCursor
def sqlite (E : Crates) (epoch : Bytes16) (channel : String) (position : ℤ) : ReplayCursor :=
  let digest := E.sha256 channel
  let stream := Vector.ofFn fun i : Fin 16 => digest[i]
  ⟨some (epoch, stream), position⟩

def postgres (position : ℤ) : ReplayCursor := ⟨none, position⟩

def display (c : ReplayCursor) : String :=
  match c.scope with
  | some (epoch, stream) =>
    "s1." ++ encode epoch ++ "." ++ encode stream ++ "." ++ toString c.position
  | none => toString c.position
end ReplayCursor

def parseDigits (cs : List Char) : Option ℕ :=
  if cs ≠ [] ∧ cs.all Char.isDigit then some (Nat.ofDigitChars 10 cs 0) else none

def checkI64 (n : ℤ) : Option ℤ := if i64Min ≤ n ∧ n ≤ i64Max then some n else none

/-- `str::parse::<i64>`, which allows a sign. -/
def parseI64 : List Char → Option ℤ
  | '+' :: cs => (parseDigits cs).bind (fun n => checkI64 n)
  | '-' :: cs => (parseDigits cs).bind (fun n => checkI64 (-n))
  | cs => (parseDigits cs).bind (fun n => checkI64 n)

def toBytes16 (bytes : List UInt8) : Option Bytes16 :=
  if h : bytes.length = 16 then some ⟨bytes.toArray, by simpa using h⟩ else none

namespace ReplayCursor
def invalid : ChannelError := .badRequest "invalid replay cursor"

def orInvalid {α : Type} (o : Option α) : Except ChannelError α := o.elim (.error invalid) .ok

def component (part : List Char) : Except ChannelError Bytes16 := do
  let bytes ← orInvalid (Base64Url.decode part)
  orInvalid (toBytes16 bytes)

def fromStr (value : String) : Except ChannelError ReplayCursor :=
  match value.toList with
  | 's' :: '1' :: '.' :: value =>
    match value.splitOn '.' with
    | first :: second :: third :: more => do
      let epoch ← component first
      let stream ← component second
      let position ← orInvalid (parseI64 third)
      if position < 0 ∨ more ≠ [] then .error invalid else .ok ⟨some (epoch, stream), position⟩
    | _ => .error invalid
  | value => do
    let position ← orInvalid (parseI64 value)
    if position < 0 then .error invalid else .ok (postgres position)
end ReplayCursor

variable (b : Bytes16)
theorem toBytes16_toList : toBytes16 b.toList = some b := by
  unfold toBytes16
  simp [Vector.toList]

theorem parseDigits_toDigits (n : ℕ) : parseDigits (Nat.toDigits 10 n) = some n := by
  have hall : (Nat.toDigits 10 n).all Char.isDigit = true := by
    apply List.all_eq_true.mpr
    intro c hc
    exact Nat.isDigit_of_mem_toDigits (by decide) (by decide) hc
  rw [parseDigits, if_pos ⟨Nat.toDigits_ne_nil, hall⟩, Nat.ofDigitChars_ten_toDigits]

theorem parseI64_of_isDigit {cs : List Char} (h : ∀ c ∈ cs, c.isDigit = true) :
    parseI64 cs = (parseDigits cs).bind (fun n => checkI64 n) := by
  unfold parseI64
  split
  · exact absurd (h '+' List.mem_cons_self) (by decide)
  · exact absurd (h '-' List.mem_cons_self) (by decide)
  · rfl

variable {n : ℤ}
theorem toList_toString (h : 0 ≤ n) : (toString n).toList = Nat.toDigits 10 n.toNat := by
  rw [Int.toString_eq_repr, Int.repr_eq_if, if_pos h, Nat.repr_eq_ofList_toDigits,
    String.toList_ofList]

theorem isDigit_of_mem_toString (h : 0 ≤ n) {c : Char} (hc : c ∈ (toString n).toList) :
    c.isDigit = true := by
  rw [toList_toString h] at hc
  exact Nat.isDigit_of_mem_toDigits (by decide) (by decide) hc

theorem parseI64_toString (h0 : 0 ≤ n) (h1 : n ≤ i64Max) :
    parseI64 (toString n).toList = some n := by
  have hmin : i64Min ≤ n := le_trans (by decide) h0
  rw [parseI64_of_isDigit (fun c hc => isDigit_of_mem_toString h0 hc), toList_toString h0,
    parseDigits_toDigits, Option.bind_some, Int.toNat_of_nonneg h0, checkI64, if_pos ⟨hmin, h1⟩]

theorem component_encode : ReplayCursor.component (encode b).toList = .ok b := by
  unfold ReplayCursor.component encode
  rw [String.toList_ofList, Base64Url.decode_encode]
  show ReplayCursor.orInvalid (toBytes16 b.toList) = .ok b
  rw [toBytes16_toList]
  rfl

theorem dot_not_mem_encode : '.' ∉ (encode b).toList := by
  rw [encode, String.toList_ofList]
  intro h
  exact absurd (Base64Url.mem_alphabet_of_mem_encode h) (by decide +kernel)

theorem ReplayCursor.fromStr_display {c : ReplayCursor} {epoch stream : Bytes16}
    (hscope : c.scope = some (epoch, stream)) (h0 : 0 ≤ c.position) (h1 : c.position ≤ i64Max) :
    fromStr c.display = .ok c := by
  have htext : c.display.toList = 's' :: '1' :: '.' :: [('.' : Char)].intercalate
      [(encode epoch).toList, (encode stream).toList, (toString c.position).toList] := by
    simp [display, hscope, List.intercalate]
  have hdot : '.' ∉ (toString c.position).toList := by
    intro h
    exact absurd (isDigit_of_mem_toString h0 h) (by decide)
  have hsplit : ([('.' : Char)].intercalate [(encode epoch).toList, (encode stream).toList,
      (toString c.position).toList]).splitOn '.' =
      [(encode epoch).toList, (encode stream).toList, (toString c.position).toList] := by
    apply List.splitOn_intercalate
    · intro l hl
      simp only [List.mem_cons, List.not_mem_nil, or_false] at hl
      obtain rfl | rfl | rfl := hl
      · exact dot_not_mem_encode epoch
      · exact dot_not_mem_encode stream
      · exact hdot
    · exact List.cons_ne_nil _ _
  unfold fromStr
  rw [htext]
  simp only [hsplit, component_encode, parseI64_toString h0 h1]
  show (if c.position < 0 ∨ _ then _ else _) = _
  rw [if_neg (by simpa using h0), ← hscope]

end Tako.Channel
