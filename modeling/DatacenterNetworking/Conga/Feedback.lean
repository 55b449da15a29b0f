/-
  DatacenterNetworking.Conga.Feedback

  Where a congestion metric comes from.  Any number of ToRs exchange packets
  through cores that stamp any `ce`.  A metric travels from `A` to `B` in `ce`, is
  kept in `CongFromLeaf` of `B`, travels back in `fb_ce` and ends in `CongToLeaf`
  of `A`; at each stage it is the `ce` of a packet from `A` that `B` received, on
  the core under whose tag it is kept.
-/

import DatacenterNetworking.Conga.Tor

namespace DatacenterNetworking
namespace Conga
namespace Feedback

/-- A packet between two ToRs: its tags, and the flag `PASSED_CORE`. -/
structure Pkt where
  vxlan : Vxlan
  passedCore : Bool
  deriving DecidableEq, Repr

/-- The ToRs by their id, the packets between them, and the history of the packets each
    ToR received from a core. -/
structure State where
  tors : Nat → ToR
  flight : List Pkt
  received : List (Nat × Vxlan)

/-- What may happen: a packet from a server under `src` to one under `dst` arrives at its
    source ToR; a core queue stamps a packet; a packet arrives at its destination ToR; a
    packet is dropped. -/
inductive Act where
  | send (src dst rand : Nat)
  | stamp (i ce : Nat)
  | deliver (i : Nat)
  | lose (i : Nat)
  deriving DecidableEq, Repr

/-- The transition function.  `receivePacket` of a ToR is `asSrcToR` before the core and
    `asDstToR` after it. -/
def step (nCore : Nat) (s : State) : Act → Option State
  | .send src dst rand =>
      let r := (s.tors src).asSrcToR nCore rand dst
      some { s with
        tors := Function.update s.tors src r.1
        flight := s.flight ++ [⟨r.2, false⟩] }
  | .stamp i ce =>
      s.flight[i]?.map fun p =>
        { s with flight := s.flight.set i ⟨{ p.vxlan with ce := ce }, true⟩ }
  | .deliver i =>
      s.flight[i]?.bind fun p =>
        if p.passedCore then
          some {
            tors := Function.update s.tors p.vxlan.dst ((s.tors p.vxlan.dst).asDstToR p.vxlan)
            flight := s.flight.eraseIdx i
            received := (p.vxlan.dst, p.vxlan) :: s.received }
        else none
  | .lose i => s.flight[i]?.map fun _ => { s with flight := s.flight.eraseIdx i }

/-- A network of ToRs. -/
def network (nCore : Nat) : Lts State Act where
  step := step nCore

/-- All tables zero, nothing in flight. -/
def init (nxtLbTag : Nat → Nat → Nat) : State where
  tors := fun id => ToR.new id (nxtLbTag id)
  flight := []
  received := []

/-- ToR `dst` received a packet from `src` with tag `core` and metric `val`. -/
def Measured (received : List (Nat × Vxlan)) (dst src core val : Nat) : Prop :=
  ∃ v : Vxlan, (dst, v) ∈ received ∧ v.src = src ∧ v.dst = dst ∧ v.lbtag = core ∧ v.ce = val

theorem Measured.cons {received : List (Nat × Vxlan)} {dst src core val : Nat}
    (h : Measured received dst src core val) (r : Nat × Vxlan) :
    Measured (r :: received) dst src core val := by
  obtain ⟨v, hv, hrest⟩ := h
  exact ⟨v, List.mem_cons_of_mem _ hv, hrest⟩

/-- The three places a metric is kept. -/
structure Provenance (s : State) : Prop where
  idTor : ∀ a, (s.tors a).idTor = a
  fromLeaf : ∀ b a c, (s.tors b).congFromLeaf a c = 0 ∨
    Measured s.received b a c ((s.tors b).congFromLeaf a c)
  flight : ∀ p ∈ s.flight, p.vxlan.fbCe = 0 ∨
    Measured s.received p.vxlan.src p.vxlan.dst p.vxlan.fbLbtag p.vxlan.fbCe
  toLeaf : ∀ a b c, (s.tors a).congToLeaf b c = 0 ∨
    Measured s.received b a c ((s.tors a).congToLeaf b c)

theorem provenance_init (nxtLbTag : Nat → Nat → Nat) : Provenance (init nxtLbTag) where
  idTor := fun _ => rfl
  fromLeaf := fun _ _ _ => Or.inl rfl
  flight := fun _ hp => absurd hp List.not_mem_nil
  toLeaf := fun _ _ _ => Or.inl rfl

theorem provenance_send {nCore src dst rand : Nat} {s t : State} (h : Provenance s)
    (hstep : step nCore s (.send src dst rand) = some t) : Provenance t := by
  cases hstep
  -- the source ToR keeps its tables
  have htables : ∀ a, ((Function.update s.tors src
      ((s.tors src).asSrcToR nCore rand dst).1) a).idTor = (s.tors a).idTor ∧
      ((Function.update s.tors src
        ((s.tors src).asSrcToR nCore rand dst).1) a).congFromLeaf = (s.tors a).congFromLeaf ∧
      ((Function.update s.tors src
        ((s.tors src).asSrcToR nCore rand dst).1) a).congToLeaf = (s.tors a).congToLeaf := by
    intro a
    by_cases ha : a = src
    · subst ha
      rw [Function.update_self]
      exact ⟨rfl, rfl, rfl⟩
    · rw [Function.update_of_ne ha]
      exact ⟨rfl, rfl, rfl⟩
  refine
    { idTor := fun a => (htables a).1.trans (h.idTor a)
      fromLeaf := fun b a c => by rw [(htables b).2.1]; exact h.fromLeaf b a c
      flight := fun p hp => ?_
      toLeaf := fun a b c => by rw [(htables a).2.2]; exact h.toLeaf a b c }
  rcases List.mem_append.mp hp with hp | hp
  · exact h.flight p hp
  · -- the new packet feeds back what its source has from the destination
    rw [List.mem_singleton] at hp
    subst hp
    show (s.tors src).congFromLeaf dst ((s.tors src).nxtLbTag dst) = 0 ∨
      Measured s.received (s.tors src).idTor dst ((s.tors src).nxtLbTag dst)
        ((s.tors src).congFromLeaf dst ((s.tors src).nxtLbTag dst))
    rw [h.idTor src]
    exact h.fromLeaf src dst _

theorem provenance_deliver {nCore i : Nat} {s t : State} (h : Provenance s)
    (hstep : step nCore s (.deliver i) = some t) : Provenance t := by
  obtain ⟨p, hp, hstep⟩ := Option.bind_eq_some_iff.mp hstep
  split_ifs at hstep
  cases hstep
  have hmem : p ∈ s.flight := List.mem_of_getElem? hp
  have hid : ∀ a, ((Function.update s.tors p.vxlan.dst
      ((s.tors p.vxlan.dst).asDstToR p.vxlan)) a).idTor = a := by
    intro a
    by_cases ha : a = p.vxlan.dst
    · rw [ha, Function.update_self]
      exact h.idTor _
    · rw [Function.update_of_ne ha]
      exact h.idTor a
  -- two entries change: `CongFromLeaf` by what was measured, `CongToLeaf` by what was fed back
  refine
    { idTor := hid
      fromLeaf := fun b a c => ?_
      flight := fun q hq => (h.flight q (List.mem_of_mem_eraseIdx hq)).imp id (·.cons _)
      toLeaf := fun a b c => ?_ }
  · by_cases hb : b = p.vxlan.dst
    · subst hb
      simp only [Function.update_self]
      show ToR.setEntry _ _ _ _ a c = 0 ∨ Measured _ _ _ _ (ToR.setEntry _ _ _ _ a c)
      by_cases hac : a = p.vxlan.src ∧ c = p.vxlan.lbtag
      · -- the packet just received is the one that was measured
        obtain ⟨rfl, rfl⟩ := hac
        rw [ToR.setEntry_self]
        exact Or.inr ⟨p.vxlan, List.mem_cons_self, rfl, rfl, rfl, rfl⟩
      · rw [ToR.setEntry_of_ne hac]
        exact (h.fromLeaf _ a c).imp id (·.cons _)
    · simp only [Function.update_of_ne hb]
      exact (h.fromLeaf b a c).imp id (·.cons _)
  · by_cases ha : a = p.vxlan.dst
    · subst ha
      simp only [Function.update_self]
      show ToR.setEntry _ _ _ _ b c = 0 ∨ Measured _ _ _ _ (ToR.setEntry _ _ _ _ b c)
      by_cases hbc : b = p.vxlan.src ∧ c = p.vxlan.fbLbtag
      · -- the entry takes over what the packet fed back
        obtain ⟨rfl, rfl⟩ := hbc
        rw [ToR.setEntry_self]
        exact (h.flight p hmem).imp id (·.cons _)
      · rw [ToR.setEntry_of_ne hbc]
        exact (h.toLeaf _ b c).imp id (·.cons _)
    · simp only [Function.update_of_ne ha]
      exact (h.toLeaf a b c).imp id (·.cons _)

theorem provenance_step {nCore : Nat} {s t : State} {a : Act} (h : Provenance s)
    (hstep : step nCore s a = some t) : Provenance t := by
  cases a with
  | send src dst rand => exact provenance_send h hstep
  | stamp i ce =>
    obtain ⟨p, hp, rfl⟩ := Option.map_eq_some_iff.mp hstep
    refine
      { idTor := h.idTor
        fromLeaf := h.fromLeaf
        flight := fun q hq => ?_
        toLeaf := h.toLeaf }
    -- a core writes `ce` only
    rcases List.mem_or_eq_of_mem_set hq with hq | rfl
    · exact h.flight q hq
    · exact h.flight p (List.mem_of_getElem? hp)
  | deliver i => exact provenance_deliver h hstep
  | lose i =>
    obtain ⟨p, -, rfl⟩ := Option.map_eq_some_iff.mp hstep
    exact
      { idTor := h.idTor
        fromLeaf := h.fromLeaf
        flight := fun q hq => h.flight q (List.mem_of_mem_eraseIdx hq)
        toLeaf := h.toLeaf }

/-- In every reachable state `CongToLeaf[b][c]` of ToR `a` is 0 or the `ce` of a packet
    from `a` to `b` with tag `c` that `b` has received. -/
theorem congToLeaf_measured (nCore : Nat) (nxtLbTag : Nat → Nat → Nat) (s : State)
    (h : (network nCore).Reachable (init nxtLbTag) s) (a b c : Nat) :
    (s.tors a).congToLeaf b c = 0 ∨
      ∃ v : Vxlan, (b, v) ∈ s.received ∧ v.src = a ∧ v.dst = b ∧ v.lbtag = c ∧
        v.ce = (s.tors a).congToLeaf b c :=
  (h.invariant (provenance_init nxtLbTag) fun _ _ _ hs hstep => provenance_step hs hstep).toLeaf
    a b c

/-- ToR 0 sends to ToR 1 over core 1, which measures 5; the answer feeds it back. -/
def feedbackRun : List Act :=
  [.send 0 1 1, .stamp 0 5, .deliver 0, .send 1 0 0, .stamp 0 0, .deliver 0]

theorem congToLeaf_measured_five :
    ∃ s, (network 2).run (init fun _ _ => 1) feedbackRun = some s ∧
      (s.tors 0).congToLeaf 1 1 = 5 ∧
      ∃ v : Vxlan, (1, v) ∈ s.received ∧ v.src = 0 ∧ v.dst = 1 ∧ v.lbtag = 1 ∧
        v.ce = (s.tors 0).congToLeaf 1 1 :=
  ⟨((network 2).run (init fun _ _ => 1) feedbackRun).get (by decide +kernel),
    (Option.some_get _).symm, by decide +kernel,
    (congToLeaf_measured 2 (fun _ _ => 1) _ ⟨feedbackRun, (Option.some_get _).symm⟩
      0 1 1).resolve_left (by decide +kernel)⟩

end Feedback
end Conga
end DatacenterNetworking
