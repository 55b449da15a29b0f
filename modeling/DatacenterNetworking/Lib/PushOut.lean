/-
  DatacenterNetworking.Lib.PushOut

  A queue with one server and a limit on what it holds, which pushes out the last of its
  entries when an arrival does not fit.  What it may do is said on the log alone: the entry
  taken is before every other one that waits, the entry shed is after every other one, and
  one is shed only while there is too much (`Allowed`, `Lawful`).

  `Buffer` is such a queue with a list sorted by a key.  Equal keys keep the order of
  arrival, so the entries of a log are told apart by the number of their arrival.

    * `pushesOut_arrive`, `pushesOut_complete` — its log is lawful, what it holds fits, and
      nothing waits while the server is free.
-/

import DatacenterNetworking.Lib.StableInsert
import DatacenterNetworking.Lib.Lts
import Mathlib.Algebra.Order.Ring.Nat

namespace DatacenterNetworking
namespace PushOut

/-- What happens in the queue.  The end of a service is that of the entry taken last. -/
inductive Event (α : Type*) where
  | enter (x : α)
  | take (x : α)
  | shed (x : α)
  | depart
  deriving DecidableEq

/-- The same events of other entries. -/
def Event.map {α β : Type*} (f : α → β) : Event α → Event β
  | .enter x => .enter (f x)
  | .take x => .take (f x)
  | .shed x => .shed (f x)
  | .depart => .depart

/-- An entry with the number of its arrival. -/
structure Numbered (α : Type*) where
  item : α
  number : Nat

/-! ## The law -/

section Law

variable {α κ : Type*}

/-- The entries that came in. -/
def entered (log : List (Event α)) : List α :=
  log.filterMap fun e => match e with
    | .enter x => some x
    | _ => none

/-- The entries taken into service. -/
def taken (log : List (Event α)) : List α :=
  log.filterMap fun e => match e with
    | .take x => some x
    | _ => none

/-- The entries pushed out. -/
def dropped (log : List (Event α)) : List α :=
  log.filterMap fun e => match e with
    | .shed x => some x
    | _ => none

/-- How many services ended. -/
def departs (log : List (Event α)) : Nat :=
  (log.filterMap fun e => match e with
    | .depart => some ()
    | _ => none).length

/-- The entries whose service ended. -/
def served (log : List (Event α)) : List α := (taken log).take (departs log)

/-- The entries whose service did not end yet. -/
def inService (log : List (Event α)) : List α := (taken log).drop (departs log)

/-- `x` came in and did not leave. -/
structure Waits (log : List (Event α)) (x : α) : Prop where
  entered : x ∈ entered log
  not_taken : x ∉ taken log
  not_dropped : x ∉ dropped log

/-- What came in. -/
def volumeIn (size : α → Nat) (log : List (Event α)) : Nat := ((entered log).map size).sum

/-- What left. -/
def volumeOut (size : α → Nat) (log : List (Event α)) : Nat :=
  ((dropped log).map size).sum + ((served log).map size).sum

/-- What an arrival adds to the log. -/
theorem log_enter (log : List (Event α)) (x : α) :
    entered (log ++ [.enter x]) = entered log ++ [x] ∧ taken (log ++ [.enter x]) = taken log ∧
      dropped (log ++ [.enter x]) = dropped log ∧ departs (log ++ [.enter x]) = departs log := by
  simp [entered, taken, dropped, departs]

/-- What the start of a service adds to the log. -/
theorem log_take (log : List (Event α)) (x : α) :
    entered (log ++ [.take x]) = entered log ∧ taken (log ++ [.take x]) = taken log ++ [x] ∧
      dropped (log ++ [.take x]) = dropped log ∧ departs (log ++ [.take x]) = departs log := by
  simp [entered, taken, dropped, departs]

/-- What a drop adds to the log. -/
theorem log_shed (log : List (Event α)) (x : α) :
    entered (log ++ [.shed x]) = entered log ∧ taken (log ++ [.shed x]) = taken log ∧
      dropped (log ++ [.shed x]) = dropped log ++ [x] ∧
      departs (log ++ [.shed x]) = departs log := by
  simp [entered, taken, dropped, departs]

/-- What the end of a service adds to the log. -/
theorem log_depart (log : List (Event α)) :
    entered (log ++ [.depart]) = entered log ∧ taken (log ++ [.depart]) = taken log ∧
      dropped (log ++ [.depart]) = dropped log ∧ departs (log ++ [.depart]) = departs log + 1 := by
  simp [entered, taken, dropped, departs]

theorem entered_append (log log' : List (Event α)) :
    entered (log ++ log') = entered log ++ entered log' := List.filterMap_append

theorem entered_map_shed (l : List α) : entered (l.map Event.shed) = [] := by
  simp [entered, List.filterMap_map]

theorem entered_map_take (l : List α) : entered (l.map Event.take) = [] := by
  simp [entered, List.filterMap_map]

variable [LinearOrder κ] (key : α → κ) (size : α → Nat) (capacity : Nat)

/-- The order of service: by key, then by arrival. -/
def Before (x y : Numbered α) : Prop :=
  key x.item < key y.item ∨ key x.item = key y.item ∧ x.number < y.number

/-- The events that may follow a log. -/
inductive Allowed (log : List (Event (Numbered α))) : Event (Numbered α) → Prop
  | enter {x : Numbered α} (hnumber : x.number = (entered log).length) : Allowed log (.enter x)
  | take {x : Numbered α} (hwaits : Waits log x)
      (hfirst : ∀ y, Waits log y → y ≠ x → Before key x y) (hfree : inService log = []) :
      Allowed log (.take x)
  | shed {x : Numbered α} (hwaits : Waits log x)
      (hlast : ∀ y, Waits log y → y ≠ x → Before key y x)
      (hover : volumeOut (fun y => size y.item) log + capacity <
        volumeIn (fun y => size y.item) log) : Allowed log (.shed x)
  | depart (hbusy : inService log ≠ []) : Allowed log .depart

/-- Every event of the log is allowed after those before it. -/
def Lawful (log : List (Event (Numbered α))) : Prop :=
  ∀ before e after, log = before ++ e :: after → Allowed key size capacity before e

variable {key size capacity}

theorem lawful_nil : Lawful key size capacity [] := by
  intro before e after h
  exact absurd h.symm (List.append_ne_nil_of_right_ne_nil _ (List.cons_ne_nil e after))

theorem Lawful.concat {log : List (Event (Numbered α))} {e : Event (Numbered α)}
    (h : Lawful key size capacity log) (he : Allowed key size capacity log e) :
    Lawful key size capacity (log ++ [e]) := by
  intro before e' after heq
  rcases List.eq_nil_or_concat after with rfl | ⟨after', z, rfl⟩
  · obtain ⟨rfl, hlast⟩ := List.append_inj' heq rfl
    cases hlast
    exact he
  · rw [List.concat_eq_append, ← List.cons_append, ← List.append_assoc] at heq
    exact h before e' after' (List.append_inj' heq rfl).1

end Law

/-! ## Entries kept in order -/

section Keeping

variable {α κ : Type*} [LinearOrder κ] {key : α → κ} {size : α → Nat} {capacity : Nat}
  {log : List (Event (Numbered α))} {line : List (Numbered α)} {current : Option (Numbered α)}

/-- `line` are the entries that wait after `log`, the first to serve in front, and `current`
    is the one in service. -/
structure Keeps (key : α → κ) (size : α → Nat) (capacity : Nat)
    (log : List (Event (Numbered α))) (line : List (Numbered α))
    (current : Option (Numbered α)) : Prop where
  lawful : Lawful key size capacity log
  sorted : line.Pairwise (Before key)
  mem_iff : ∀ x, x ∈ line ↔ Waits log x
  number_lt : ∀ x ∈ entered log, x.number < (entered log).length
  taken_entered : ∀ x ∈ taken log, x ∈ entered log
  dropped_entered : ∀ x ∈ dropped log, x ∈ entered log
  departs_le : departs log ≤ (taken log).length
  service : inService log = current.toList
  volume : volumeIn (fun x => size x.item) log = volumeOut (fun x => size x.item) log +
    ((line.map fun x => size x.item).sum + (current.toList.map fun x => size x.item).sum)

theorem keeps_nil : Keeps key size capacity [] [] none where
  lawful := lawful_nil
  sorted := List.Pairwise.nil
  mem_iff := fun _ => ⟨fun h => absurd h List.not_mem_nil, fun h => h.entered⟩
  number_lt := fun _ h => absurd h List.not_mem_nil
  taken_entered := fun _ h => absurd h List.not_mem_nil
  dropped_entered := fun _ h => absurd h List.not_mem_nil
  departs_le := Nat.zero_le _
  service := rfl
  volume := rfl

theorem not_before_self (x : Numbered α) : ¬ Before key x x := by
  rintro (hlt | ⟨-, hlt⟩)
  · exact lt_irrefl _ hlt
  · exact Nat.lt_irrefl _ hlt

/-- The entries that wait are different ones. -/
theorem Keeps.nodup (h : Keeps key size capacity log line current) : line.Nodup := by
  refine h.sorted.imp fun hbefore heq => ?_
  rw [heq] at hbefore
  exact not_before_self _ hbefore

/-- An arrival, in the place of its key. -/
theorem Keeps.enter (h : Keeps key size capacity log line current) (a : α) :
    Keeps key size capacity (log ++ [.enter ⟨a, (entered log).length⟩])
      (insertByKey (fun x => key x.item) ⟨a, (entered log).length⟩ line) current := by
  have hnew : (⟨a, (entered log).length⟩ : Numbered α) ∉ entered log := fun hmem =>
    Nat.lt_irrefl _ (h.number_lt _ hmem)
  obtain ⟨hentered, htaken, hdropped, hdeparts⟩ :=
    log_enter log (⟨a, (entered log).length⟩ : Numbered α)
  refine
    { lawful := h.lawful.concat (.enter rfl)
      sorted := ?_
      mem_iff := ?_
      number_lt := ?_
      taken_entered := ?_
      dropped_entered := ?_
      departs_le := ?_
      service := ?_
      volume := ?_ }
  · refine pairwise_insertByKey_of h.sorted (fun y hy hle => ?_) (fun y _ hlt => Or.inl hlt)
      (h.sorted.imp ?_)
    · rcases hle.lt_or_eq with hlt | heq
      · exact Or.inl hlt
      · exact Or.inr ⟨heq, h.number_lt y ((h.mem_iff y).mp hy).entered⟩
    · rintro x y (hlt | ⟨heq, -⟩)
      · exact hlt.le
      · exact heq.le
  · intro x
    rw [mem_insertByKey, h.mem_iff]
    constructor
    · rintro (rfl | hwaits)
      · refine ⟨?_, ?_, ?_⟩
        · rw [hentered]
          exact List.mem_append_right _ List.mem_cons_self
        · rw [htaken]
          exact fun hmem => hnew (h.taken_entered _ hmem)
        · rw [hdropped]
          exact fun hmem => hnew (h.dropped_entered _ hmem)
      · refine ⟨?_, htaken ▸ hwaits.not_taken, hdropped ▸ hwaits.not_dropped⟩
        rw [hentered]
        exact List.mem_append_left _ hwaits.entered
    · intro hwaits
      have hmem := hwaits.entered
      rw [hentered] at hmem
      rcases List.mem_append.mp hmem with hold | hx
      · exact Or.inr ⟨hold, htaken ▸ hwaits.not_taken, hdropped ▸ hwaits.not_dropped⟩
      · exact Or.inl (List.mem_singleton.mp hx)
  · intro x hx
    rw [hentered] at hx ⊢
    rw [List.length_append, List.length_singleton]
    rcases List.mem_append.mp hx with hold | hx
    · have hlt := h.number_lt x hold
      omega
    · rw [List.mem_singleton.mp hx]
      exact Nat.lt_succ_self _
  · intro x hx
    rw [hentered]
    exact List.mem_append_left _ (h.taken_entered x (htaken ▸ hx))
  · intro x hx
    rw [hentered]
    exact List.mem_append_left _ (h.dropped_entered x (hdropped ▸ hx))
  · rw [htaken, hdeparts]
    exact h.departs_le
  · rw [inService, htaken, hdeparts]
    exact h.service
  · have hvolume := h.volume
    have hperm : (insertByKey (fun x : Numbered α => key x.item)
        ⟨a, (entered log).length⟩ line).Perm (⟨a, (entered log).length⟩ :: line) :=
      perm_insertByKey _ _
    have hins := (hperm.map fun x => size x.item).sum_nat
    simp only [List.map_cons, List.sum_cons] at hins
    simp only [volumeIn, volumeOut, served, hentered, htaken, hdropped, hdeparts,
      List.map_append, List.sum_append, List.map_cons, List.map_nil, List.sum_singleton] at *
    omega

/-- The first entry is taken into service. -/
theorem Keeps.take {x : Numbered α} {rest : List (Numbered α)}
    (h : Keeps key size capacity log (x :: rest) none) :
    Keeps key size capacity (log ++ [.take x]) rest (some x) := by
  obtain ⟨hfirst, hsorted⟩ := List.pairwise_cons.mp h.sorted
  obtain ⟨hx, -⟩ := List.nodup_cons.mp h.nodup
  have hfree : inService log = [] := h.service
  have hdone : departs log = (taken log).length :=
    Nat.le_antisymm h.departs_le (List.drop_eq_nil_iff.mp hfree)
  obtain ⟨hentered, htaken, hdropped, hdeparts⟩ := log_take log x
  have hwaits : Waits log x := (h.mem_iff x).mp List.mem_cons_self
  refine
    { lawful := h.lawful.concat (.take hwaits (fun y hy hne => ?_) hfree)
      sorted := hsorted
      mem_iff := ?_
      number_lt := hentered ▸ h.number_lt
      taken_entered := ?_
      dropped_entered := hdropped ▸ hentered ▸ h.dropped_entered
      departs_le := ?_
      service := ?_
      volume := ?_ }
  · rcases List.mem_cons.mp ((h.mem_iff y).mpr hy) with heq | hmem
    · exact absurd heq hne
    · exact hfirst y hmem
  · intro y
    constructor
    · intro hy
      have hold := (h.mem_iff y).mp (List.mem_cons_of_mem _ hy)
      refine ⟨hentered ▸ hold.entered, ?_, hdropped ▸ hold.not_dropped⟩
      rw [htaken, List.mem_append, List.mem_singleton]
      rintro (hmem | rfl)
      · exact hold.not_taken hmem
      · exact hx hy
    · rintro ⟨hin, hnot, hkept⟩
      rw [htaken, List.mem_append, List.mem_singleton, not_or] at hnot
      rcases List.mem_cons.mp ((h.mem_iff y).mpr ⟨hentered ▸ hin, hnot.1, hdropped ▸ hkept⟩)
        with heq | hmem
      · exact absurd heq hnot.2
      · exact hmem
  · intro y hy
    rw [htaken] at hy
    rw [hentered]
    rcases List.mem_append.mp hy with hold | hy
    · exact h.taken_entered y hold
    · rw [List.mem_singleton.mp hy]
      exact hwaits.entered
  · rw [htaken, hdeparts, hdone, List.length_append]
    exact Nat.le_add_right _ _
  · rw [inService, htaken, hdeparts, hdone, List.drop_left]
    rfl
  · have hvolume := h.volume
    simp only [volumeIn, volumeOut, served, hentered, htaken, hdropped, hdeparts, hdone,
      List.take_left, List.take_length, Option.toList_none, Option.toList_some,
      List.map_cons, List.map_nil, List.sum_cons, List.sum_nil] at *
    omega

/-- The last entry is pushed out when there is too much. -/
theorem Keeps.shed {x : Numbered α} {init : List (Numbered α)}
    (h : Keeps key size capacity log (init ++ [x]) current)
    (hover : capacity < (((init ++ [x]).map fun y => size y.item).sum +
      (current.toList.map fun y => size y.item).sum)) :
    Keeps key size capacity (log ++ [.shed x]) init current := by
  obtain ⟨hsorted, -, hlast⟩ := List.pairwise_append.mp h.sorted
  have hnodup : x ∉ init := fun hmem => (List.nodup_append.mp h.nodup).2.2 x hmem x
    List.mem_cons_self rfl
  obtain ⟨hentered, htaken, hdropped, hdeparts⟩ := log_shed log x
  have hwaits : Waits log x := (h.mem_iff x).mp (List.mem_append_right _ List.mem_cons_self)
  have hvolume := h.volume
  refine
    { lawful := h.lawful.concat (.shed hwaits (fun y hy hne => ?_) (by omega))
      sorted := hsorted
      mem_iff := ?_
      number_lt := hentered ▸ h.number_lt
      taken_entered := htaken ▸ hentered ▸ h.taken_entered
      dropped_entered := ?_
      departs_le := htaken ▸ hdeparts ▸ h.departs_le
      service := ?_
      volume := ?_ }
  · rcases List.mem_append.mp ((h.mem_iff y).mpr hy) with hmem | heq
    · exact hlast y hmem x List.mem_cons_self
    · exact absurd (List.mem_singleton.mp heq) hne
  · intro y
    constructor
    · intro hy
      have hold := (h.mem_iff y).mp (List.mem_append_left _ hy)
      refine ⟨hentered ▸ hold.entered, htaken ▸ hold.not_taken, ?_⟩
      rw [hdropped, List.mem_append, List.mem_singleton]
      rintro (hmem | rfl)
      · exact hold.not_dropped hmem
      · exact hnodup hy
    · rintro ⟨hin, hnot, hkept⟩
      rw [hdropped, List.mem_append, List.mem_singleton, not_or] at hkept
      rcases List.mem_append.mp ((h.mem_iff y).mpr ⟨hentered ▸ hin, htaken ▸ hnot, hkept.1⟩)
        with hmem | heq
      · exact hmem
      · exact absurd (List.mem_singleton.mp heq) hkept.2
  · intro y hy
    rw [hdropped] at hy
    rw [hentered]
    rcases List.mem_append.mp hy with hold | hy
    · exact h.dropped_entered y hold
    · rw [List.mem_singleton.mp hy]
      exact hwaits.entered
  · rw [inService, htaken, hdeparts]
    exact h.service
  · simp only [volumeIn, volumeOut, served, hentered, htaken, hdropped, hdeparts,
      List.map_append, List.sum_append, List.map_cons, List.map_nil, List.sum_singleton] at *
    omega

/-- The service ends. -/
theorem Keeps.depart {x : Numbered α} (h : Keeps key size capacity log line (some x)) :
    Keeps key size capacity (log ++ [.depart]) line none := by
  obtain ⟨hentered, htaken, hdropped, hdeparts⟩ := log_depart log
  have hbusy : inService log = [x] := h.service
  have hsplit : taken log = served log ++ [x] := by
    rw [← hbusy]
    exact (List.take_append_drop _ _).symm
  have hlen : (served log).length = departs log := List.length_take_of_le h.departs_le
  have htotal : (taken log).length = departs log + 1 := by
    rw [hsplit, List.length_append, hlen, List.length_singleton]
  have hserved : served (log ++ [.depart]) = taken log := by
    rw [served, htaken, hdeparts, ← htotal, List.take_length]
  refine
    { lawful := h.lawful.concat (.depart (by rw [hbusy]; exact List.cons_ne_nil x []))
      sorted := h.sorted
      mem_iff := ?_
      number_lt := hentered ▸ h.number_lt
      taken_entered := htaken ▸ hentered ▸ h.taken_entered
      dropped_entered := hdropped ▸ hentered ▸ h.dropped_entered
      departs_le := by rw [htaken, hdeparts, htotal]
      service := ?_
      volume := ?_ }
  · intro y
    rw [h.mem_iff]
    exact ⟨fun hy => ⟨hentered ▸ hy.entered, htaken ▸ hy.not_taken, hdropped ▸ hy.not_dropped⟩,
      fun hy => ⟨hentered ▸ hy.entered, htaken ▸ hy.not_taken, hdropped ▸ hy.not_dropped⟩⟩
  · rw [inService, htaken, hdeparts, ← htotal, List.drop_length]
    rfl
  · have hvolume := h.volume
    have hsum := congrArg (fun l => (l.map fun x : Numbered α => size x.item).sum) hsplit
    simp only [volumeIn, volumeOut, hserved, hentered, hdropped, Option.toList_none,
      Option.toList_some, List.map_append, List.sum_append, List.map_cons, List.map_nil,
      List.sum_singleton, List.sum_nil] at *
    omega

end Keeping

/-! ## The queue -/

/-- A queue of items tagged by `τ`: the entries that wait, the item in service, how much is
    held, and how much may be. -/
structure Buffer (τ β : Type*) where
  line : List (τ × β)
  current : Option β
  held : Nat
  capacity : Nat

namespace Buffer

variable {τ β κ : Type*} [LinearOrder κ] (key : τ × β → κ) (size : β → Nat)

def enqueue (b : Buffer τ β) (e : τ × β) : Buffer τ β :=
  { b with line := insertByKey key e b.line, held := b.held + size e.2 }

/-- Push out the last entry. -/
def dropTail (b : Buffer τ β) : Buffer τ β × List (Event (τ × β)) :=
  match b.line.getLast? with
  | none => (b, [])
  | some e => ({ b with line := b.line.dropLast, held := b.held - size e.2 }, [.shed e])

/-- Push out entries while there is too much, `fuel` at most. -/
def dropOverflow : Nat → Buffer τ β → Buffer τ β × List (Event (τ × β))
  | 0, b => (b, [])
  | fuel + 1, b =>
      if b.capacity < b.held then
        ((dropOverflow fuel (b.dropTail size).1).1,
          (b.dropTail size).2 ++ (dropOverflow fuel (b.dropTail size).1).2)
      else (b, [])

def store (b : Buffer τ β) (e : τ × β) : Buffer τ β × List (Event (τ × β)) :=
  ((dropOverflow size (b.enqueue key size e).line.length (b.enqueue key size e)).1,
    .enter e :: (dropOverflow size (b.enqueue key size e).line.length (b.enqueue key size e)).2)

/-- Take the first entry into service. -/
def begin (b : Buffer τ β) : Buffer τ β × List (Event (τ × β)) :=
  match b.line with
  | [] => (b, [])
  | e :: rest => ({ b with line := rest, current := some e.2 }, [.take e])

def wasEmpty (b : Buffer τ β) : Bool := b.current.isNone && b.line.isEmpty

/-- An arrival; it is served at once if the queue was empty. -/
def arrive (b : Buffer τ β) (e : τ × β) : Buffer τ β × List (Event (τ × β)) :=
  if b.wasEmpty then
    ((b.store key size e).1.begin.1, (b.store key size e).2 ++ (b.store key size e).1.begin.2)
  else b.store key size e

/-- The end of a service, up to the start of the next one. -/
def finish (b : Buffer τ β) : Option (Buffer τ β) :=
  b.current.map fun x => { b with current := none, held := b.held - size x }

/-- The end of a service. -/
def complete (b : Buffer τ β) : Option (Buffer τ β × List (Event (τ × β))) :=
  (b.finish size).map fun t => (t.begin.1, .depart :: t.begin.2)

/-- What waits and what is in service. -/
def load (b : Buffer τ β) : Nat :=
  (b.line.map fun e => size e.2).sum + (b.current.toList.map size).sum

variable {key size}

/-- An entry pushed out takes its size off the load. -/
theorem load_dropTail {b : Buffer τ β} {e : τ × β} (h : b.line.getLast? = some e) :
    b.load size = (b.dropTail size).1.load size + size e.2 := by
  obtain ⟨init, hinit⟩ := List.getLast?_eq_some_iff.mp h
  simp only [dropTail, h, load]
  rw [hinit, List.dropLast_concat, List.map_append, List.sum_append, List.map_singleton,
    List.sum_singleton]
  omega

theorem load_enqueue (b : Buffer τ β) (e : τ × β) :
    (b.enqueue key size e).load size = b.load size + size e.2 := by
  have hline : (insertByKey key e b.line).Perm (e :: b.line) := perm_insertByKey e b.line
  have hperm := (hline.map fun x => size x.2).sum_nat
  rw [List.map_cons, List.sum_cons] at hperm
  simp only [enqueue, load]
  omega

theorem held_dropTail_le (b : Buffer τ β) : (b.dropTail size).1.held ≤ b.held := by
  rw [dropTail]
  split
  · exact le_rfl
  · exact Nat.sub_le _ _

theorem held_dropOverflow_le (fuel : Nat) (b : Buffer τ β) :
    (b.dropOverflow size fuel).1.held ≤ b.held := by
  induction fuel generalizing b with
  | zero => exact le_rfl
  | succ fuel ih =>
    rw [dropOverflow]
    split_ifs
    · exact (ih _).trans (held_dropTail_le b)
    · exact le_rfl

theorem held_begin (b : Buffer τ β) : b.begin.1.held = b.held := by
  rw [begin]
  split
  · rfl
  · rfl

/-- An arrival brings its own size at most. -/
theorem held_arrive_le (b : Buffer τ β) (e : τ × β) :
    (b.arrive key size e).1.held ≤ b.held + size e.2 := by
  have hstore : (b.store key size e).1.held ≤ b.held + size e.2 := held_dropOverflow_le _ _
  rw [arrive]
  split_ifs
  · rw [held_begin]
    exact hstore
  · exact hstore

/-- The end of a service brings nothing. -/
theorem held_complete_le {b : Buffer τ β} {r : Buffer τ β × List (Event (τ × β))}
    (hr : b.complete size = some r) : r.1.held ≤ b.held := by
  obtain ⟨t, hfinish, rfl⟩ := Option.map_eq_some_iff.mp hr
  obtain ⟨x, -, rfl⟩ := Option.map_eq_some_iff.mp hfinish
  rw [held_begin]
  exact Nat.sub_le _ _

end Buffer

section Queue

variable {τ β κ : Type*} [LinearOrder κ] {key : τ × β → κ} {size : β → Nat}
  {capacity : Nat} {log : List (Event (τ × β))} {b : Buffer τ β}

/-- The entries of the log can be numbered by their arrival so that the queue holds, in order,
    those that wait. -/
structure Tracks (key : τ × β → κ) (size : β → Nat) (capacity : Nat)
    (log : List (Event (τ × β))) (b : Buffer τ β) : Prop where
  keeps : ∃ numbered line current, numbered.map (Event.map Numbered.item) = log ∧
    Keeps key (fun e => size e.2) capacity numbered line current ∧
    line.map Numbered.item = b.line ∧ current.map (fun x => x.item.2) = b.current
  capacity_eq : b.capacity = capacity
  held : b.held = b.load size
  current_le : (b.current.toList.map size).sum ≤ b.capacity

/-- Moreover what the queue holds fits, and nothing waits while the server is free. -/
structure PushesOut (key : τ × β → κ) (size : β → Nat) (capacity : Nat)
    (log : List (Event (τ × β))) (b : Buffer τ β) : Prop
    extends Tracks key size capacity log b where
  fits : b.held ≤ b.capacity
  busy : b.current = none → b.line = []

theorem pushesOut_nil (capacity : Nat) :
    PushesOut key size capacity [] (⟨[], none, 0, capacity⟩ : Buffer τ β) where
  keeps := ⟨[], [], none, rfl, keeps_nil, rfl, rfl⟩
  capacity_eq := rfl
  held := rfl
  current_le := Nat.zero_le _
  fits := Nat.zero_le _
  busy := fun _ => rfl

theorem Tracks.enqueue (h : Tracks key size capacity log b) (e : τ × β) :
    Tracks key size capacity (log ++ [.enter e]) (b.enqueue key size e) := by
  obtain ⟨numbered, line, current, hlog, hkeeps, hline, hcurrent⟩ := h.keeps
  refine ⟨⟨_, _, current, ?_, hkeeps.enter e, ?_, hcurrent⟩, h.capacity_eq, ?_, h.current_le⟩
  · rw [List.map_append, hlog]
    rfl
  · rw [Buffer.enqueue, ← hline]
    exact List.map_orderedInsert _ _ _ _ _ (fun _ _ => Iff.rfl) fun _ _ => Iff.rfl
  · rw [Buffer.load_enqueue, ← h.held]
    rfl

/-- Where too much is held, an entry waits. -/
theorem Tracks.line_ne_nil (h : Tracks key size capacity log b) (hover : b.capacity < b.held) :
    b.line ≠ [] := by
  intro hnil
  have hheld := h.held
  rw [Buffer.load, hnil, List.map_nil, List.sum_nil, Nat.zero_add] at hheld
  exact absurd h.current_le (by omega)

theorem Tracks.dropTail (h : Tracks key size capacity log b) (hover : b.capacity < b.held) :
    Tracks key size capacity (log ++ (b.dropTail size).2) (b.dropTail size).1 ∧
      (b.dropTail size).1.current = b.current ∧
      (b.dropTail size).1.line.length + 1 = b.line.length := by
  obtain ⟨init, e, hsplit⟩ := (List.eq_nil_or_concat b.line).resolve_left (h.line_ne_nil hover)
  rw [List.concat_eq_append] at hsplit
  have hdrop : b.dropTail size =
      ({ b with line := init, held := b.held - size e.2 }, [.shed e]) := by
    simp only [Buffer.dropTail, hsplit, List.getLast?_concat, List.dropLast_concat]
  have hheld := h.held
  obtain ⟨numbered, line, current, hlog, hkeeps, hline, hcurrent⟩ := h.keeps
  rw [hsplit] at hline
  obtain ⟨init', last, rfl, hinit, hlast⟩ := List.map_eq_append_iff.mp hline
  obtain ⟨x, rfl, rfl⟩ := List.map_eq_singleton_iff.mp hlast
  have hcur : (current.toList.map fun y => size y.item.2).sum =
      (b.current.toList.map size).sum := by
    rw [← hcurrent]
    cases current with
    | none => rfl
    | some y => rfl
  rw [hdrop]
  refine ⟨⟨⟨_, _, current, ?_, hkeeps.shed ?_, hinit, hcurrent⟩, h.capacity_eq, ?_,
    h.current_le⟩, rfl, ?_⟩
  · rw [List.map_append, hlog]
    rfl
  · have hsum : ((init' ++ [x]).map fun y => size y.item.2).sum =
        (b.line.map fun y => size y.2).sum := by
      rw [hsplit, ← hline, List.map_map]
      rfl
    rw [hsum, hcur, ← Buffer.load, ← hheld, ← h.capacity_eq]
    exact hover
  · simp only [Buffer.load, hsplit, List.map_append, List.sum_append, List.map_cons,
      List.map_nil, List.sum_singleton] at hheld ⊢
    omega
  · rw [hsplit, List.length_append, List.length_singleton]

/-- As many rounds as entries are enough: each drops one while there is too much. -/
theorem Tracks.dropOverflow (fuel : Nat) (h : Tracks key size capacity log b)
    (hfuel : b.line.length ≤ fuel) :
    Tracks key size capacity (log ++ (b.dropOverflow size fuel).2) (b.dropOverflow size fuel).1 ∧
      (b.dropOverflow size fuel).1.current = b.current ∧
      (b.dropOverflow size fuel).1.held ≤ (b.dropOverflow size fuel).1.capacity := by
  induction fuel generalizing b log with
  | zero =>
    rw [Buffer.dropOverflow, List.append_nil]
    refine ⟨h, rfl, ?_⟩
    by_contra hover
    exact h.line_ne_nil (not_le.mp hover) (List.length_eq_zero_iff.mp (Nat.le_zero.mp hfuel))
  | succ fuel ih =>
    rw [Buffer.dropOverflow]
    split_ifs with hover
    · obtain ⟨htracks, hcurrent, hlen⟩ := h.dropTail hover
      obtain ⟨htracks', hcurrent', hfits⟩ := ih htracks (by omega)
      rw [List.append_assoc] at htracks'
      exact ⟨htracks', hcurrent'.trans hcurrent, hfits⟩
    · rw [List.append_nil]
      exact ⟨h, rfl, not_lt.mp hover⟩

theorem Tracks.store (h : Tracks key size capacity log b) (e : τ × β) :
    Tracks key size capacity (log ++ (b.store key size e).2) (b.store key size e).1 ∧
      (b.store key size e).1.current = b.current ∧
      (b.store key size e).1.held ≤ (b.store key size e).1.capacity := by
  obtain ⟨htracks, hcurrent, hfits⟩ := (h.enqueue e).dropOverflow _ le_rfl
  rw [List.append_assoc] at htracks
  exact ⟨htracks, hcurrent, hfits⟩

/-- A free server takes the first entry. -/
theorem Tracks.begin (h : Tracks key size capacity log b) (hfree : b.current = none)
    (hfits : b.held ≤ b.capacity) : PushesOut key size capacity (log ++ b.begin.2) b.begin.1 := by
  rw [Buffer.begin]
  cases hline : b.line with
  | nil =>
    rw [List.append_nil]
    exact { toTracks := h, fits := hfits, busy := fun _ => hline }
  | cons e rest =>
    obtain ⟨numbered, line, current, hlog, hkeeps, hmap, hcurrent⟩ := h.keeps
    rw [hline] at hmap
    obtain ⟨x, rest', rfl, rfl, rfl⟩ := List.map_eq_cons_iff.mp hmap
    rw [hfree, Option.map_eq_none_iff] at hcurrent
    subst hcurrent
    have hheld := h.held
    simp only [Buffer.load, hline, hfree, Option.toList_none, List.map_cons, List.sum_cons,
      List.map_nil, List.sum_nil] at hheld
    refine ⟨⟨⟨_, rest', some x, ?_, hkeeps.take, rfl, rfl⟩, h.capacity_eq, ?_, ?_⟩, hfits, nofun⟩
    · rw [List.map_append, hlog]
      rfl
    · simp only [Buffer.load, Option.toList_some, List.map_cons, List.map_nil, List.sum_cons,
        List.sum_nil]
      omega
    · simp only [Option.toList_some, List.map_cons, List.map_nil, List.sum_cons, List.sum_nil]
      omega

theorem pushesOut_arrive (h : PushesOut key size capacity log b) (e : τ × β) :
    PushesOut key size capacity (log ++ (b.arrive key size e).2) (b.arrive key size e).1 := by
  obtain ⟨htracks, hcurrent, hfits⟩ := h.toTracks.store e
  rw [Buffer.arrive]
  split_ifs with hempty
  · rw [Buffer.wasEmpty, Bool.and_eq_true, Option.isNone_iff_eq_none] at hempty
    rw [← List.append_assoc]
    exact htracks.begin (hcurrent.trans hempty.1) hfits
  · refine { toTracks := htracks, fits := hfits, busy := fun hnone => ?_ }
    -- the queue was not empty, so the server is busy
    have hnone' : b.current = none := hcurrent.symm.trans hnone
    rw [Buffer.wasEmpty, hnone', h.busy hnone'] at hempty
    exact absurd rfl hempty

theorem pushesOut_complete (h : PushesOut key size capacity log b)
    {r : Buffer τ β × List (Event (τ × β))}
    (hr : b.complete size = some r) : PushesOut key size capacity (log ++ r.2) r.1 := by
  obtain ⟨t, hfinish, rfl⟩ := Option.map_eq_some_iff.mp hr
  obtain ⟨x, hx, rfl⟩ := Option.map_eq_some_iff.mp hfinish
  obtain ⟨numbered, line, current, hlog, hkeeps, hline, hcurrent⟩ := h.keeps
  rw [hx] at hcurrent
  obtain ⟨y, rfl, rfl⟩ := Option.map_eq_some_iff.mp hcurrent
  have hheld := h.held
  have hfits := h.fits
  simp only [Buffer.load, hx, Option.toList_some, List.map_cons, List.map_nil, List.sum_cons,
    List.sum_nil] at hheld
  have htracks : Tracks key size capacity (log ++ [.depart])
      { b with current := none, held := b.held - size y.item.2 } := by
    refine ⟨⟨_, line, none, ?_, hkeeps.depart, hline, rfl⟩, h.capacity_eq, ?_, Nat.zero_le _⟩
    · rw [List.map_append, hlog]
      rfl
    · simp only [Buffer.load, Option.toList_none, List.map_nil, List.sum_nil]
      omega
  have hbegin := htracks.begin rfl (by dsimp only; omega)
  rw [List.append_assoc] at hbegin
  exact hbegin

end Queue

end PushOut
end DatacenterNetworking
