import Tako.NetworkReplicas

/-! The servers of a network over time, each on a replica of its own. Rows that clash come from
servers that do not know of each other's. -/
namespace Tako.Network
open Effects Fallible RegistrySnapshot List Relation
/-- What becomes of a call of the store: it is answered, it does not arrive, or its answer
does not. -/
inductive Fate where
  | answered
  | lost
  | unheard
deriving DecidableEq

structure Surroundings (X : Exchange) (Ω : Type) where
  fate : Ω → Fate × Ω
  diskFails : Ω → Bool × Ω
  randomId : Ω → Except Error RequestId × Ω
  generateX25519 : Ω → Except Error X.Private × Ω

structure Site (X : Exchange) (Ω : Type) where
  serverId : DeviceId
  bootId : BootId
  limits : RuntimeLimits
  keys : ServerKeys
  surroundings : Surroundings X Ω

variable {C : Crypto} (J : Json) {X : Exchange} {network : NetworkDescriptor} {ι Ω α : Type}
/-- The surroundings of a server that is called. The type says that the replica comes from
what it was before by writes. -/
structure Outside (R₀ : Replica C network) (Ω : Type) where
  replica : Grown J R₀
  rest : Ω

variable {J} {R₀ : Replica C network}
def request (E : Surroundings X Ω) (f : Grown J R₀ → Except RuntimeError α × Grown J R₀)
    (o : Outside J R₀ Ω) : Except RuntimeError α × Outside J R₀ Ω :=
  let (fate, rest) := E.fate o.rest
  match fate with
  | .answered => ((f o.replica).1, ⟨(f o.replica).2, rest⟩)
  | .lost => (.error .transport, ⟨o.replica, rest⟩)
  | .unheard => (.error .transport, ⟨(f o.replica).2, rest⟩)

def draw (f : Ω → α × Ω) (o : Outside J R₀ Ω) : α × Outside J R₀ Ω :=
  ((f o.rest).1, { o with rest := (f o.rest).2 })

def Surroundings.environment (E : Surroundings X Ω) : Environment X (Outside J R₀ Ω) where
  snapshot := request E fun R => (project C J network R.replica.rows, R)
  appendMember m := request E (·.write J (.member m))
  appendRevocation r := request E (·.write J (.revocation r))
  appendAck a := request E (·.write J (.ack a))
  diskFails := draw E.diskFails
  randomId := draw E.randomId
  generateX25519 := draw E.generateX25519

def Site.server (site : Site X Ω) : Server (Outside J R₀ Ω) where
  crypto := C
  json := J
  exchange := X
  environment := site.surroundings.environment
  config := ⟨network, site.serverId, site.bootId, site.limits⟩
  keys := site.keys

/-- A server between two calls. -/
structure Place (C : Crypto) (X : Exchange) (network : NetworkDescriptor) (Ω : Type) where
  replica : Replica C network
  rest : Ω
  state : RuntimeState X

abbrev Place.rows (p : Place C X network Ω) : List Record := p.replica.rows

variable (J) in
def Place.world (p : Place C X network Ω) : World X (Outside J p.replica Ω) :=
  ⟨⟨⟨p.replica, .refl⟩, p.rest⟩, p.state⟩

def arrived (w : World X (Outside J R₀ Ω)) : Place C X network Ω :=
  ⟨w.outside.replica.replica, w.outside.rest, w.state⟩

theorem SoundRows.merge {rows other : List Record} (h : SoundRows C network rows)
    (hother : SoundRows C network other) (chosen : List Record) :
    SoundRows C network (rows ++ other.filter fun row => row ∈ chosen ∧ row ∉ rows) := by
  refine ⟨h.nodup.append (hother.nodup.filter _) fun x hx hx' => ?_, mem_append_left _ h.pinned,
    fun x hx => ?_⟩
  · exact (of_decide_eq_true (mem_filter.mp hx').2).2 hx
  · obtain hx | hx := mem_append.mp hx
    · exact h.sound x hx
    · exact hother.sound x (mem_filter.mp hx).1

/-- What happens in a network: a server is called, or rows pass from one replica to another. -/
inductive Happening (ι : Type) where
  | call (i : ι) (call : Server.RuntimeCall)
  | merge (i j : ι) (chosen : List Record)

variable (J) [DecidableEq ι] (sites : ι → Site X Ω)
def happen (places : ι → Place C X network Ω) : Happening ι → ι → Place C X network Ω
  | .call i call => Function.update places i
      (arrived (final ((sites i).server.perform call ((places i).world J))))
  | .merge i j chosen => Function.update places i
      { places i with
        replica := ⟨_, (places i).replica.sound.merge (places j).replica.sound chosen⟩ }

/-- Whoever writes a row that nobody has had before has every row of anybody that clashes with
it, and counts it. -/
def Informed (before after : ι → Place C X network Ω) : Prop :=
  ∀ i, ∀ y ∈ (after i).rows, (∀ j, y ∉ (before j).rows) → ∀ j, ∀ x ∈ (after j).rows,
    x.Clashes C network (fun m => m.wgVerified = true) y → x ∈ (after i).rows ∧
      x.Clashes C network (Admissible C (collected network (after i).rows)) y

variable {J sites} {places : ι → Place C X network Ω}
/-- To a server it happens that it writes, or that rows of others arrive. -/
theorem happen_cases (h : Happening ι) (i : ι) :
    ReflTransGen (Written J) (places i).replica (happen J sites places h i).replica ∨
      (places i).rows ⊆ (happen J sites places h i).rows ∧
        ∀ x ∈ (happen J sites places h i).rows, ∃ j, x ∈ (places j).rows := by
  cases h with
  | call k call =>
    refine .inl ?_
    by_cases hik : i = k
    · obtain rfl := hik
      rw [happen, Function.update_self]
      exact (final ((sites i).server.perform call ((places i).world J))).outside.replica.grown
    · rw [happen, Function.update_of_ne hik]
  | merge k j chosen =>
    by_cases hik : i = k
    · obtain rfl := hik
      rw [happen, Function.update_self]
      refine .inr ⟨subset_append_left _ _, fun x hx => ?_⟩
      obtain hx | hx := mem_append.mp hx
      · exact ⟨i, hx⟩
      · exact ⟨j, (mem_filter.mp hx).1⟩
    · rw [happen, Function.update_of_ne hik]
      exact .inl .refl

theorem happen_kept (h : Happening ι) (i : ι) {x : Record} (hx : x ∈ (places i).rows)
    (hkind : x.kind ≠ .ack) : x ∈ (happen J sites places h i).rows := by
  obtain hgrown | ⟨hsub, _⟩ := happen_cases h i
  · exact kept_of_grown hgrown hx hkind
  · exact hsub hx

variable {happenings : List (Happening ι)}
theorem happen_alone (h : Happening ι) (i : ι) {x y : Record}
    (hx : x ∈ (happen J sites places h i).rows) (hy : y ∈ (happen J sites places h i).rows)
    (hnew : ∀ j, y ∉ (places j).rows) (hclash : x.Clashes C network
      (Admissible C (collected network (happen J sites places h i).rows)) y) : x = y := by
  obtain hgrown | ⟨_, hold⟩ := happen_cases h i
  · exact alone_of_grown hgrown hx hy (hnew i) hclash
  · obtain ⟨j, hj⟩ := hold y hy
    exact absurd hj (hnew j)

/-- Rows that clash, wherever they are, were there at the start, and are everywhere. -/
structure Compatible (start : List Record) (places : ι → Place C X network Ω) : Prop where
  kept : ∀ i, ∀ x ∈ start, x.kind ≠ .ack → x ∈ (places i).rows
  agreed : ∀ i, ∀ x ∈ (places i).rows, ∀ j, ∀ y ∈ (places j).rows,
    x.Clashes C network (fun m => m.wgVerified = true) y → x = y ∨ x ∈ start ∧ y ∈ start

variable {start : List Record}
/-- A row that is new was written by one who had what clashes with it. -/
theorem Compatible.happen (hcompatible : Compatible start places) {h : Happening ι}
    (hinformed : Informed places (happen J sites places h)) :
    Compatible start (happen J sites places h) := by
  refine ⟨fun i x hx hkind => happen_kept h i (hcompatible.kept i x hx hkind) hkind,
    fun i x hx j y hy hclash => ?_⟩
  -- a row that is new was written by a server that had the other one
  by_cases hynew : ∀ k, y ∉ (places k).rows
  · obtain ⟨hmem, hcounts⟩ := hinformed j y hy hynew i x hx hclash
    exact .inl (happen_alone h j hmem hy hynew hcounts)
  by_cases hxnew : ∀ k, x ∉ (places k).rows
  · obtain ⟨hmem, hcounts⟩ := hinformed i x hx hxnew j y hy hclash.symm
    exact .inl (happen_alone h i hmem hx hxnew hcounts).symm
  push Not at hynew hxnew
  obtain ⟨k, hk⟩ := hxnew
  obtain ⟨l, hl⟩ := hynew
  exact hcompatible.agreed k x hk l y hl hclash

end Tako.Network
