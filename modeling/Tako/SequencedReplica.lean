import Mathlib.Logic.Relation
import Mathlib.Data.List.Basic

/-! A table that is replicated over a FIFO connection by numbered changes and by
snapshots. Entries fade: once one is dead, either side may drop it at any time. -/
namespace Replication
open List Function
variable {κ α τ : Type} [DecidableEq κ]
abbrev Change (κ α : Type) := κ × Option α

variable (start : κ → Option α)
def replay (log : List (Change κ α)) : κ → Option α :=
  log.foldl (fun table change => Function.update table change.1 change.2) start

inductive Frame (κ α : Type) where
  | change (change : Change κ α) (number : ℕ)
  | snapshot (table : κ → Option α) (number : ℕ)

structure Replica (κ α : Type) where
  table : κ → Option α
  received : Option ℕ
  snapshots : Option ℕ

def Replica.empty : Replica κ α := ⟨fun _ => none, none, none⟩

/-- `log` is what the source did since the connection was made, `start` what it had
and `first` the number of its last change before that. `seen` are the numbers of
the snapshots that arrived since the last fence. -/
structure Link (κ α τ : Type) where
  start : κ → Option α
  first : ℕ
  log : List (Change κ α)
  source : κ → Option α
  queue : List (Frame κ α)
  replica : Replica κ α
  seen : List ℕ
  now : τ

variable (dead : τ → α → Prop)
/-- `t'` is `t` without some entries that are dead. -/
def Fades (now : τ) (t t' : κ → Option α) : Prop :=
  ∀ k, t' k = t k ∨ (t' k = none ∧ ∃ a, t k = some a ∧ dead now a)

/-- What a frame makes of a replica. Numbers that are not new are ignored, and so
are snapshots that are older than a change or another snapshot. -/
inductive Receives (now : τ) (r : Replica κ α) : Frame κ α → Replica κ α → Prop
  | old {change : Change κ α} {n : ℕ} (h : n ≤ r.received.getD 0) :
      Receives now r (.change change n) r
  | change {k : κ} {v v' : Option α} {n : ℕ} (h : r.received.getD 0 < n)
      (hv : v' = v ∨ (v' = none ∧ ∃ a, v = some a ∧ dead now a)) :
      Receives now r (.change (k, v) n) ⟨Function.update r.table k v', some n, r.snapshots⟩
  | outdated {table : κ → Option α} {n : ℕ}
      (h : (∃ m, r.received = some m ∧ n < m) ∨ ∃ m, r.snapshots = some m ∧ n ≤ m) :
      Receives now r (.snapshot table n) r
  | snapshot {table t : κ → Option α} {n : ℕ} (hreceived : ∀ m, r.received = some m → m ≤ n)
      (hsnapshots : ∀ m, r.snapshots = some m → m < n) (ht : Fades dead now table t) :
      Receives now r (.snapshot table n) ⟨t, some n, some n⟩

def Frame.seen (seen : List ℕ) : Frame κ α → List ℕ
  | .change _ _ => seen
  | .snapshot _ n => seen ++ [n]

inductive Step [LE τ] : Link κ α τ → Link κ α τ → Prop
  | wait (l : Link κ α τ) (now : τ) (h : l.now ≤ now) : Step l { l with now := now }
  | fadeSource (l : Link κ α τ) (t : κ → Option α) (h : Fades dead l.now l.source t) :
      Step l { l with source := t }
  | fadeReplica (l : Link κ α τ) (t : κ → Option α) (h : Fades dead l.now l.replica.table t) :
      Step l { l with replica := { l.replica with table := t } }
  | publish (l : Link κ α τ) (change : Change κ α) :
      Step l { l with
        source := Function.update l.source change.1 change.2
        log := l.log ++ [change]
        queue := l.queue ++ [.change change (l.first + l.log.length + 1)] }
  | answer (l : Link κ α τ) :
      Step l { l with queue := l.queue ++ [.snapshot l.source (l.first + l.log.length)] }
  | deliver (l : Link κ α τ) (f : Frame κ α) (rest : List (Frame κ α)) (r : Replica κ α)
      (hqueue : l.queue = f :: rest) (h : Receives dead l.now l.replica f r) :
      Step l { l with
        queue := rest
        replica := r
        seen := f.seen l.seen }
  | duplicate (l : Link κ α τ) (table : κ → Option α) (n : ℕ) (r : Replica κ α) (hn : n ∈ l.seen)
      (h : Receives dead l.now l.replica (.snapshot table n) r) : Step l { l with replica := r }
  | fence (l : Link κ α τ) : Step l { l with
      replica := .empty
      seen := [] }
  | reconnect (l : Link κ α τ) : Step l { l with
      queue := []
      replica := .empty
      seen := [] }

def tableAt (log : List (Change κ α)) (d : ℕ) : κ → Option α :=
  replay start (log.take d)

/-- The queue holds the changes after the first `d`, in order, and snapshots of what
the source had in between. -/
def Carries (start : κ → Option α) (first : ℕ) (log : List (Change κ α)) (now : τ) :
    ℕ → List (Frame κ α) → Prop
  | d, [] => d = log.length
  | d, .change change n :: rest =>
    log[d]? = some change ∧ n = first + d + 1 ∧ Carries start first log now (d + 1) rest
  | d, .snapshot table n :: rest =>
    n = first + d ∧ Fades dead now (tableAt start log d) table ∧
      Carries start first log now d rest

structure Holds (l : Link κ α τ) (d : ℕ) : Prop where
  unheard : l.replica.received = none →
    (∀ k, l.replica.table k = none) ∧ l.replica.snapshots = none
  received : ∀ n, l.replica.received = some n → n = l.first + d ∧
    ∀ k a, l.replica.table k = some a → tableAt l.start l.log d k = some a
  snapshots : ∀ m, l.replica.snapshots = some m → m ≤ l.first + d ∧ l.replica.received ≠ none ∧
    Fades dead l.now (tableAt l.start l.log d) l.replica.table ∧ ∀ n ∈ l.seen, n ≤ m
  unseen : l.replica.snapshots = none → l.seen = []

structure Consistent (l : Link κ α τ) : Prop where
  source : Fades dead l.now (replay l.start l.log) l.source
  carried : ∃ d, Carries dead l.start l.first l.log l.now d l.queue ∧ Holds dead l d

variable {t : κ → Option α} {k : κ}
section
variable {dead} {now now' : τ} {t' t'' : κ → Option α}
omit [DecidableEq κ] in
theorem fades_refl (now : τ) (t : κ → Option α) : Fades dead now t t := fun _ => .inl rfl

omit [DecidableEq κ] in
theorem Fades.eq_of_some (h : Fades dead now t t') {a : α} (hk : t' k = some a) :
    t k = some a := by
  obtain heq | ⟨hnone, _⟩ := h k
  · rw [← heq]
    exact hk
  · rw [hnone] at hk
    cases hk

omit [DecidableEq κ] in
theorem Fades.trans (h : Fades dead now t t') (h' : Fades dead now t' t'') :
    Fades dead now t t'' := by
  intro k
  obtain heq' | ⟨hnone, a, ha, hdead⟩ := h' k
  · rw [heq']
    exact h k
  · exact .inr ⟨hnone, a, h.eq_of_some ha, hdead⟩

omit [DecidableEq κ] in
theorem Fades.mono [LE τ] (hmono : ∀ s s' a, s ≤ s' → dead s a → dead s' a) (hle : now ≤ now')
    (h : Fades dead now t t') : Fades dead now' t t' := by
  intro k
  obtain heq | ⟨hnone, a, ha, hdead⟩ := h k
  · exact .inl heq
  · exact .inr ⟨hnone, a, ha, hmono now now' a hle hdead⟩

theorem Fades.update (h : Fades dead now t t') {v v' : Option α}
    (hv : v' = v ∨ (v' = none ∧ ∃ a, v = some a ∧ dead now a)) :
    Fades dead now (Function.update t k v) (Function.update t' k v') := by
  intro k'
  by_cases hk : k' = k
  · subst hk
    rw [update_self, update_self]
    exact hv
  · rw [update_of_ne hk, update_of_ne hk]
    exact h k'
end

variable {table : κ → Option α}
section
variable {dead} {start : κ → Option α} {now now' : τ} {first d : ℕ} {log : List (Change κ α)}
  {queue : List (Frame κ α)}

theorem tableAt_succ {change : Change κ α} (h : log[d]? = some change) : tableAt start log (d + 1) =
      Function.update (tableAt start log d) change.1 change.2 := by
  have htake : log.take (d + 1) = log.take d ++ [change] := by
    rw [take_add_one, h]
    rfl
  unfold tableAt replay
  rw [htake, foldl_append]
  rfl

theorem tableAt_append (start : κ → Option α) (hd : d ≤ log.length) (change : Change κ α) :
    tableAt start (log ++ [change]) d = tableAt start log d := by
  unfold tableAt
  rw [take_append_of_le_length hd]

theorem tableAt_length : tableAt start log log.length = replay start log := by
  unfold tableAt
  rw [take_length]

theorem tableAt_eq_none {i : ℕ} (hi : log[i]? = some (k, none)) (hd : i < d)
    (hlast : ∀ j a, i < j → j < d → log[j]? ≠ some (k, some a)) : tableAt start log d k = none := by
  induction d with
  | zero => exact absurd hd (Nat.not_lt_zero i)
  | succ d ih =>
    cases hchange : log[d]? with
    | none =>
      -- the log has ended before, and with it the change at `i`
      have hle : log.length ≤ d := List.getElem?_eq_none_iff.mp hchange
      obtain ⟨hlt, _⟩ := List.getElem?_eq_some_iff.mp hi
      have hsame : tableAt start log (d + 1) = tableAt start log d := by
        unfold tableAt
        rw [List.take_of_length_le (Nat.le_succ_of_le hle), List.take_of_length_le hle]
      rw [hsame]
      exact ih (Nat.lt_of_lt_of_le hlt hle) fun j a hij hjd => hlast j a hij (Nat.lt_succ_of_lt hjd)
    | some change =>
      rw [tableAt_succ hchange]
      by_cases hk : k = change.1
      · rw [hk, update_self]
        obtain rfl | hlt := Nat.eq_or_lt_of_le (Nat.le_of_lt_succ hd)
        · rw [hi] at hchange
          rw [← Option.some.inj hchange]
        · cases hvalue : change.2 with
          | none => rfl
          | some a =>
            refine absurd ?_ (hlast d a hlt (Nat.lt_succ_self d))
            rw [hchange, hk, ← hvalue]
      · rw [update_of_ne hk]
        have hne : i ≠ d := by
          rintro rfl
          rw [hi] at hchange
          exact hk (congrArg Prod.fst (Option.some.inj hchange))
        have hlt := Nat.lt_of_le_of_ne (Nat.le_of_lt_succ hd) hne
        exact ih hlt fun j a hij hjd => hlast j a hij (Nat.lt_succ_of_lt hjd)

theorem Carries.le (h : Carries dead start first log now d queue) : d ≤ log.length := by
  induction queue generalizing d with
  | nil => exact Nat.le_of_eq h
  | cons f _ ih =>
    cases f with
    | change => exact Nat.le_of_succ_le (ih h.2.2)
    | snapshot => exact ih h.2.2

theorem Carries.mono [LE τ] (hmono : ∀ s s' a, s ≤ s' → dead s a → dead s' a) (hle : now ≤ now')
    (h : Carries dead start first log now d queue) : Carries dead start first log now' d queue := by
  induction queue generalizing d with
  | nil => exact h
  | cons f _ ih =>
    cases f with
    | change => exact ⟨h.1, h.2.1, ih h.2.2⟩
    | snapshot => exact ⟨h.1, h.2.1.mono hmono hle, ih h.2.2⟩

theorem Carries.publish (h : Carries dead start first log now d queue) (change : Change κ α) :
    Carries dead start first (log ++ [change]) now d
      (queue ++ [.change change (first + log.length + 1)]) := by
  induction queue generalizing d with
  | nil =>
    have hd : d = log.length := h
    subst hd
    refine ⟨?_, rfl, ?_⟩
    · rw [getElem?_concat_length]
    · show log.length + 1 = (log ++ [change]).length
      rw [length_append, length_singleton]
  | cons f _ ih =>
    cases f with
    | change =>
      refine ⟨?_, h.2.1, ih h.2.2⟩
      rw [getElem?_append_left (Nat.lt_of_succ_le h.2.2.le)]
      exact h.1
    | snapshot =>
      refine ⟨h.1, ?_, ih h.2.2⟩
      rw [tableAt_append start h.2.2.le]
      exact h.2.1

theorem Carries.answer (h : Carries dead start first log now d queue)
    (htable : Fades dead now (replay start log) table) :
    Carries dead start first log now d (queue ++ [.snapshot table (first + log.length)]) := by
  induction queue generalizing d with
  | nil =>
    have hd : d = log.length := h
    subst hd
    refine ⟨rfl, ?_, rfl⟩
    rw [tableAt_length]
    exact htable
  | cons f _ ih =>
    cases f with
    | change | snapshot => exact ⟨h.1, h.2.1, ih h.2.2⟩
end

section
variable {dead} {l l' : Link κ α τ} {d : ℕ}
theorem holds_empty (l : Link κ α τ) (hreplica : l.replica = .empty) (hseen : l.seen = []) (d : ℕ) :
    Holds dead l d := by
  refine ⟨?_, ?_, ?_, fun _ => hseen⟩
  · intro _
    rw [hreplica]
    exact ⟨fun _ => rfl, rfl⟩
  · intro n hn
    rw [hreplica] at hn
    cases hn
  · intro m hm
    rw [hreplica] at hm
    cases hm

variable {r : Replica κ α}
theorem Holds.change (h : Holds dead l d) {change : Change κ α} (hlog : l.log[d]? = some change)
    (hr : Receives dead l.now l.replica (.change change (l.first + d + 1)) r)
    (queue : List (Frame κ α)) : Holds dead { l with
      queue := queue
      replica := r } (d + 1) := by
  have hnext : l.replica.received.getD 0 < l.first + d + 1 := by
    cases hreceived : l.replica.received with
    | none => exact Nat.succ_pos _
    | some n =>
      rw [(h.received n hreceived).1]
      exact Nat.lt_succ_self _
  cases hr with
  | old hold => exact absurd hold (Nat.not_le.mpr hnext)
  | @change k v v' n _ hv =>
    have hat : tableAt l.start l.log (d + 1) = Function.update (tableAt l.start l.log d) k v :=
      tableAt_succ hlog
    refine ⟨?_, ?_, ?_, h.unseen⟩
    · intro hnone
      cases hnone
    · intro n hn
      cases hn
      refine ⟨rfl, ?_⟩
      intro k' a hk'
      replace hk' : Function.update l.replica.table k v' k' = some a := hk'
      show tableAt l.start l.log (d + 1) k' = some a
      rw [hat]
      by_cases hk : k' = k
      · subst hk
        rw [update_self] at hk' ⊢
        obtain rfl | ⟨hnone, _⟩ := hv
        · exact hk'
        · rw [hnone] at hk'
          cases hk'
      · rw [update_of_ne hk] at hk' ⊢
        cases hreceived : l.replica.received with
        | none =>
          rw [(h.unheard hreceived).1 k'] at hk'
          cases hk'
        | some n => exact (h.received n hreceived).2 k' a hk'
    · intro m hm
      obtain ⟨hle, _, hfades, hseen⟩ := h.snapshots m hm
      refine ⟨Nat.le_succ_of_le hle, nofun, ?_, hseen⟩
      show Fades dead l.now (tableAt l.start l.log (d + 1)) _
      rw [hat]
      exact hfades.update hv

theorem Holds.snapshot (h : Holds dead l d)
    (htable : Fades dead l.now (tableAt l.start l.log d) table)
    (hr : Receives dead l.now l.replica (.snapshot table (l.first + d)) r)
    (queue : List (Frame κ α)) : Holds dead { l with
      queue := queue
      replica := r
      seen := l.seen ++ [l.first + d] } d := by
  cases hr with
  | outdated hold =>
    -- only a snapshot of the same changes can be in the way
    have hlast : ∃ m, l.replica.snapshots = some m ∧ l.first + d ≤ m := by
      obtain ⟨m, hm, hlt⟩ | hm := hold
      · rw [(h.received m hm).1] at hlt
        exact absurd hlt (Nat.lt_irrefl _)
      · exact hm
    obtain ⟨m, hm, hle⟩ := hlast
    refine ⟨h.unheard, h.received, ?_, ?_⟩
    · intro _ hm'
      rw [hm] at hm'
      cases hm'
      obtain ⟨hle', hheard, hfades, hseen⟩ := h.snapshots m hm
      refine ⟨hle', hheard, hfades, ?_⟩
      intro n hn
      obtain hn | hn := mem_append.mp hn
      · exact hseen n hn
      · rw [mem_singleton.mp hn]
        exact hle
    · intro hnone
      rw [hm] at hnone
      cases hnone
  | @snapshot _ t _ _ hsnapshots ht =>
    have hfades := htable.trans ht
    refine ⟨nofun, ?_, ?_, nofun⟩
    · intro n hn
      cases hn
      exact ⟨rfl, fun k a hk => hfades.eq_of_some hk⟩
    · intro m hm
      cases hm
      refine ⟨Nat.le_refl _, nofun, hfades, ?_⟩
      intro n hn
      obtain hn | hn := mem_append.mp hn
      · cases hold : l.replica.snapshots with
        | none =>
          rw [h.unseen hold] at hn
          cases hn
        | some m =>
          have hle := (h.snapshots m hold).2.2.2 n hn
          exact Nat.le_trans hle (Nat.le_of_lt (hsnapshots m hold))
      · exact Nat.le_of_eq (mem_singleton.mp hn)

theorem Holds.duplicate (h : Holds dead l d) {n : ℕ} (hn : n ∈ l.seen)
    (hr : Receives dead l.now l.replica (.snapshot table n) r) : r = l.replica := by
  cases hr with
  | outdated => rfl
  | snapshot _ hsnapshots =>
    cases hold : l.replica.snapshots with
    | none =>
      rw [h.unseen hold] at hn
      cases hn
    | some m =>
      have hle := (h.snapshots m hold).2.2.2 n hn
      exact absurd (hsnapshots m hold) (Nat.not_lt.mpr hle)

theorem Holds.fade (h : Holds dead l d) (ht : Fades dead l.now l.replica.table t) :
    Holds dead { l with replica := { l.replica with table := t } } d := by
  refine ⟨?_, ?_, ?_, h.unseen⟩
  · intro hnone
    refine ⟨?_, (h.unheard hnone).2⟩
    intro k
    obtain heq | ⟨hk, _⟩ := ht k
    · exact heq.trans ((h.unheard hnone).1 k)
    · exact hk
  · intro n hn
    refine ⟨(h.received n hn).1, ?_⟩
    intro k a hk
    exact (h.received n hn).2 k a (ht.eq_of_some hk)
  · intro m hm
    obtain ⟨hle, hheard, hfades, hseen⟩ := h.snapshots m hm
    exact ⟨hle, hheard, hfades.trans ht, hseen⟩

/-- The replica is a past of the source, and the queue has the rest. -/
theorem consistent_step [LE τ] (hmono : ∀ s s' a, s ≤ s' → dead s a → dead s' a)
    (h : Consistent dead l) (hstep : Step dead l l') : Consistent dead l' := by
  obtain ⟨hsource, d, hcarries, hholds⟩ := h
  cases hstep with
  | wait _ hle =>
    refine ⟨hsource.mono hmono hle, d, hcarries.mono hmono hle, ?_⟩
    refine { hholds with snapshots := fun m hm => ?_ }
    obtain ⟨hle', hheard, hfades, hseen⟩ := hholds.snapshots m hm
    exact ⟨hle', hheard, hfades.mono hmono hle, hseen⟩
  | fadeSource t ht =>
    exact ⟨hsource.trans ht, d, hcarries, { hholds with }⟩
  | fadeReplica t ht => exact ⟨hsource, d, hcarries, hholds.fade ht⟩
  | publish change =>
    refine ⟨?_, d, hcarries.publish change, ?_⟩
    · show Fades dead l.now (replay l.start (l.log ++ [change])) _
      unfold replay
      rw [foldl_append]
      exact hsource.update (.inl rfl)
    · have hat := tableAt_append l.start hcarries.le change
      refine ⟨hholds.unheard, ?_, ?_, hholds.unseen⟩
      · intro n hn
        refine ⟨(hholds.received n hn).1, ?_⟩
        show ∀ k a, _ → tableAt l.start (l.log ++ [change]) d k = some a
        rw [hat]
        exact (hholds.received n hn).2
      · intro m hm
        obtain ⟨hle, hheard, hfades, hseen⟩ := hholds.snapshots m hm
        refine ⟨hle, hheard, ?_, hseen⟩
        show Fades dead l.now (tableAt l.start (l.log ++ [change]) d) _
        rw [hat]
        exact hfades
  | answer =>
    exact ⟨hsource, d, hcarries.answer hsource, { hholds with }⟩
  | deliver f rest r hqueue hr =>
    rw [hqueue] at hcarries
    cases f with
    | change change =>
      obtain ⟨hlog, rfl, hcarries⟩ := hcarries
      exact ⟨hsource, d + 1, hcarries, hholds.change hlog hr rest⟩
    | snapshot =>
      obtain ⟨rfl, htable, hcarries⟩ := hcarries
      exact ⟨hsource, d, hcarries, hholds.snapshot htable hr rest⟩
  | duplicate _ _ _ hn hr =>
    rw [hholds.duplicate hn hr]
    exact ⟨hsource, d, hcarries, hholds⟩
  | fence => exact ⟨hsource, d, hcarries, holds_empty _ rfl rfl d⟩
  | reconnect => exact ⟨hsource, l.log.length, rfl, holds_empty _ rfl rfl _⟩

theorem consistent_start (start : κ → Option α) (first : ℕ) (now : τ) :
    Consistent dead ⟨start, first, [], start, [], .empty, [], now⟩ :=
  ⟨fades_refl _ _, 0, rfl, holds_empty _ rfl rfl 0⟩

/-- What a replica has, the source had after the last change that arrived. -/
theorem Consistent.sound (h : Consistent dead l) {a : α} (hk : l.replica.table k = some a) :
    ∃ d ≤ l.log.length, l.replica.received = some (l.first + d) ∧
      tableAt l.start l.log d k = some a := by
  obtain ⟨_, d, hcarries, hholds⟩ := h
  cases hreceived : l.replica.received with
  | none =>
    rw [(hholds.unheard hreceived).1 k] at hk
    cases hk
  | some n =>
    obtain ⟨rfl, hsound⟩ := hholds.received n hreceived
    exact ⟨d, hcarries.le, rfl, hsound k a hk⟩

/-- Once a snapshot was applied and nothing is on the way, replica and source agree
on everything that is alive. -/
theorem Consistent.converged (h : Consistent dead l) (hqueue : l.queue = []) {m : ℕ}
    (hm : l.replica.snapshots = some m) : Fades dead l.now (replay l.start l.log) l.source ∧
      Fades dead l.now (replay l.start l.log) l.replica.table := by
  obtain ⟨hsource, d, hcarries, hholds⟩ := h
  rw [hqueue] at hcarries
  have hd : d = l.log.length := hcarries
  obtain ⟨_, _, hfades, _⟩ := hholds.snapshots m hm
  rw [hd, tableAt_length] at hfades
  exact ⟨hsource, hfades⟩
end
end Replication
