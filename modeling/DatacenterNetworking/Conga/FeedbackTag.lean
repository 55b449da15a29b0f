/-
  DatacenterNetworking.Conga.FeedbackTag

  Which metric a ToR feeds back next.  `nxtLbTag` of a peer goes round the cores
  with every packet sent to it, and is set to the tag of every packet received
  from it.

  `recorded_fedBack`: so a packet sent to the peer feeds back the tag received
  last, advanced by the packets sent since.  A metric just recorded is fed back
  within one round unless packets with other tags keep arriving between the
  packets sent (`starved`).
-/

import DatacenterNetworking.Conga.Tor
import Mathlib.Data.List.Induction

namespace DatacenterNetworking
namespace Conga
namespace ToR

/-- What may happen at a ToR: a packet for one of its servers is received from another leaf,
    or one is sent to a leaf. -/
inductive Act where
  | receive (v : Vxlan)
  | send (dst rand : Nat)
  deriving DecidableEq, Repr

/-- The ToR after it. -/
def act (nCore : Nat) (t : ToR) : Act → ToR
  | .receive v => t.asDstToR v
  | .send dst rand => (t.asSrcToR nCore rand dst).1

/-- The packets sent to `peer`. -/
def Act.sentTo (peer : Nat) : Act → Bool
  | .receive _ => false
  | .send dst _ => dst == peer

/-- The tag of a packet received from `peer`. -/
def Act.tagFrom (peer : Nat) : Act → Option Nat
  | .receive v => if v.src = peer then some v.lbtag else none
  | .send _ _ => none

/-- The `fb_lbtag` of the packets sent to `peer`, in order. -/
def fedBack (nCore peer : Nat) : ToR → List Act → List Nat
  | _, [] => []
  | t, .receive v :: as => fedBack nCore peer (t.asDstToR v) as
  | t, .send dst rand :: as =>
      let r := t.asSrcToR nCore rand dst
      if dst = peer then r.2.fbLbtag :: fedBack nCore peer r.1 as else fedBack nCore peer r.1 as

variable {nCore peer : Nat}

/-! ## The next tag -/

theorem nxtLbTag_asDstToR (t : ToR) (v : Vxlan) :
    (t.asDstToR v).nxtLbTag peer = if v.src = peer then v.lbtag else t.nxtLbTag peer := by
  simp only [asDstToR]
  split_ifs with hsrc
  · rw [hsrc, Function.update_self]
  · rw [Function.update_of_ne (Ne.symm hsrc)]

theorem nxtLbTag_asSrcToR (t : ToR) (rand dst : Nat) :
    (t.asSrcToR nCore rand dst).1.nxtLbTag peer =
      if dst = peer then (t.nxtLbTag peer + 1) % nCore else t.nxtLbTag peer := by
  simp only [asSrcToR, updateNxtLbTag]
  split_ifs with hdst
  · rw [hdst, Function.update_self]
  · rw [Function.update_of_ne (Ne.symm hdst)]

/-- The tag received last from `peer`, or `c` if none was. -/
def lastTag (peer c : Nat) (as : List Act) : Nat :=
  ((as.filterMap (Act.tagFrom peer)).getLast?).getD c

/-- The packets sent to `peer`. -/
def sends (peer : Nat) (as : List Act) : Nat := as.countP (Act.sentTo peer)

/-- The packets sent to `peer` since one was last received from it. -/
def sendsSince (peer : Nat) (as : List Act) : Nat :=
  sends peer (as.reverse.takeWhile fun a => (a.tagFrom peer).isNone)

/-- The tag that goes into the next packet to `peer`. -/
theorem nxtLbTag_foldl {t : ToR} {as : List Act} (hstart : t.nxtLbTag peer < nCore)
    (htags : ∀ a ∈ as, ∀ c ∈ a.tagFrom peer, c < nCore) :
    (as.foldl (act nCore) t).nxtLbTag peer =
      (lastTag peer (t.nxtLbTag peer) as + sendsSince peer as) % nCore := by
  -- over the last act: a tag received starts the count over, a packet sent adds one
  induction as using List.reverseRecOn with
  | nil => exact (Nat.mod_eq_of_lt hstart).symm
  | append_singleton as a ih =>
    have hrec := ih fun b hb => htags b (List.mem_append_left _ hb)
    have ha := htags a (List.mem_append_right _ (List.mem_singleton_self a))
    rw [List.foldl_append, List.foldl_cons, List.foldl_nil]
    cases a with
    | receive v =>
      show ((as.foldl (act nCore) t).asDstToR v).nxtLbTag peer = _
      rw [nxtLbTag_asDstToR]
      by_cases hsrc : v.src = peer
      · -- a tag from the peer starts over
        have hlt : v.lbtag < nCore := ha v.lbtag (by simp [Act.tagFrom, hsrc])
        simp [hsrc, lastTag, sendsSince, sends, Act.tagFrom, Nat.mod_eq_of_lt hlt]
      · rw [if_neg hsrc, hrec]
        simp [hsrc, lastTag, sendsSince, sends, Act.tagFrom, Act.sentTo]
    | send dst rand =>
      show ((as.foldl (act nCore) t).asSrcToR nCore rand dst).1.nxtLbTag peer = _
      rw [nxtLbTag_asSrcToR]
      by_cases hdst : dst = peer
      · rw [if_pos hdst, hrec, Nat.mod_add_mod, Nat.add_assoc]
        simp [hdst, lastTag, sendsSince, sends, Act.tagFrom, Act.sentTo]
      · rw [if_neg hdst, hrec]
        simp [hdst, lastTag, sendsSince, sends, Act.tagFrom, Act.sentTo]

/-! ## The tags of the next packets -/

/-- Nothing with another tag than `c` is received from `peer` before the next packet is sent
    to it, or nothing at all is received between that packet and the `nCore`-th. -/
def Undisturbed (nCore peer c : Nat) (as : List Act) : Prop :=
  (∀ pre a rest, as = pre ++ a :: rest → sends peer pre = 0 → ∀ tag ∈ a.tagFrom peer, tag = c) ∨
    ∀ pre a rest, as = pre ++ a :: rest → (a.tagFrom peer).isSome →
      sends peer pre = 0 ∨ nCore ≤ sends peer pre

/-- What the first packet to `peer` feeds back, if only tags `c` are received before it. -/
theorem fedBack_head {t : ToR} {as : List Act} {c : Nat} (hstart : t.nxtLbTag peer = c)
    (hpure : ∀ pre a rest, as = pre ++ a :: rest → sends peer pre = 0 →
      ∀ tag ∈ a.tagFrom peer, tag = c)
    (hsome : 0 < sends peer as) : (fedBack nCore peer t as).head? = some c := by
  induction as generalizing t with
  | nil => exact absurd hsome (Nat.lt_irrefl 0)
  | cons a as ih =>
    -- what is assumed of the rest, once `a` is no packet to `peer`
    have hrest : a.sentTo peer = false → ∀ pre b rest, as = pre ++ b :: rest →
        sends peer pre = 0 → ∀ tag ∈ b.tagFrom peer, tag = c := by
      intro ha pre b rest heq hpre
      refine hpure (a :: pre) b rest (by rw [heq, List.cons_append]) ?_
      rw [sends, List.countP_cons_of_neg (by simp [ha])]
      exact hpre
    cases a with
    | receive v =>
      simp only [fedBack]
      refine ih ?_ (hrest rfl) (by simpa [sends, Act.sentTo] using hsome)
      rw [nxtLbTag_asDstToR]
      split_ifs with hsrc
      · exact hpure [] _ as rfl rfl v.lbtag (by simp [Act.tagFrom, hsrc])
      · exact hstart
    | send dst rand =>
      by_cases hdst : dst = peer
      · subst hdst
        simp only [fedBack, if_true, List.head?_cons]
        exact congrArg some hstart
      · simp only [fedBack, if_neg hdst]
        refine ih ?_ (hrest (by simp [Act.sentTo, hdst])) ?_
        · rw [nxtLbTag_asSrcToR, if_neg hdst]
          exact hstart
        · simpa [sends, Act.sentTo, hdst] using hsome

/-- A stretch of packets to `peer` without any from it goes round the cores. -/
theorem fedBack_stretch {t : ToR} {as : List Act} {m k : Nat} (hstart : t.nxtLbTag peer < nCore)
    (hquiet : ∀ pre a rest, as = pre ++ a :: rest → (a.tagFrom peer).isSome →
      m ≤ sends peer pre)
    (hk : k < m) (hsome : k < sends peer as) :
    (fedBack nCore peer t as)[k]? = some ((t.nxtLbTag peer + k) % nCore) := by
  induction as generalizing t m k with
  | nil => exact absurd hsome (Nat.not_lt_zero k)
  | cons a as ih =>
    cases a with
    | receive v =>
      simp only [fedBack]
      have hsrc : v.src ≠ peer := by
        intro hsrc
        have hm := hquiet [] _ as rfl (by simp [Act.tagFrom, hsrc])
        exact absurd (hk.trans_le hm) (Nat.not_lt_zero k)
      have hsame := @nxtLbTag_asDstToR peer t v
      rw [if_neg hsrc] at hsame
      rw [← hsame]
      refine ih (hsame ▸ hstart) (fun pre b rest heq hb => ?_) hk
        (by simpa [sends, Act.sentTo] using hsome)
      simpa [sends, Act.sentTo] using hquiet (.receive v :: pre) b rest (by rw [heq]; rfl) hb
    | send dst rand =>
      have hnext := @nxtLbTag_asSrcToR nCore peer t rand dst
      by_cases hdst : dst = peer
      · simp only [fedBack, if_pos hdst]
        rw [if_pos hdst] at hnext
        cases k with
        | zero =>
          subst hdst
          rw [Nat.add_zero, Nat.mod_eq_of_lt hstart]
          rfl
        | succ k =>
          -- one round less, one core further
          rw [List.getElem?_cons_succ]
          have hpos : 0 < nCore := Nat.zero_lt_of_lt hstart
          have hrec := ih (t := (t.asSrcToR nCore rand dst).1) (m := m - 1) (k := k)
            (hnext ▸ Nat.mod_lt _ hpos)
            (fun pre b rest heq hb => by
              have hm := hquiet (.send dst rand :: pre) b rest (by rw [heq]; rfl) hb
              simp [sends, Act.sentTo, hdst] at hm ⊢
              omega)
            (by omega) (by simpa [sends, Act.sentTo, hdst] using hsome)
          rw [hrec, hnext, Nat.mod_add_mod, Nat.add_assoc, Nat.add_comm 1 k]
      · simp only [fedBack, if_neg hdst]
        rw [if_neg hdst] at hnext
        rw [← hnext]
        refine ih (hnext ▸ hstart) (fun pre b rest heq hb => ?_) hk
          (by simpa [sends, Act.sentTo, hdst] using hsome)
        simpa [sends, Act.sentTo, hdst] using hquiet (.send dst rand :: pre) b rest
          (by rw [heq]; rfl) hb

/-- If nothing is received between the first and the last of them, `nCore` packets go round
    all cores, from wherever the tags received before them lead. -/
theorem fedBack_round {t : ToR} {as : List Act} (hstart : t.nxtLbTag peer < nCore)
    (htags : ∀ a ∈ as, ∀ c ∈ a.tagFrom peer, c < nCore)
    (hquiet : ∀ pre a rest, as = pre ++ a :: rest → (a.tagFrom peer).isSome →
      sends peer pre = 0 ∨ nCore ≤ sends peer pre)
    (hsome : nCore ≤ sends peer as) :
    ∃ p < nCore, ∀ k < nCore, (fedBack nCore peer t as)[k]? = some ((p + k) % nCore) := by
  -- the acts before the first packet sent are skipped
  induction as generalizing t with
  | nil => exact absurd (hstart.trans_le hsome) (Nat.not_lt_zero _)
  | cons a as ih =>
    have htags' : ∀ b ∈ as, ∀ c ∈ b.tagFrom peer, c < nCore :=
      fun b hb => htags b (List.mem_cons_of_mem _ hb)
    by_cases hfirst : a.sentTo peer = true
    · -- the round begins here
      refine ⟨t.nxtLbTag peer, hstart, fun k hk =>
        fedBack_stretch hstart (fun pre b rest heq hb => ?_) hk (hk.trans_le hsome)⟩
      rcases hquiet pre b rest heq hb with hzero | hm
      · cases pre with
        | nil =>
          cases heq
          cases a with
          | receive v => cases hfirst
          | send dst rand => cases hb
        | cons a' pre =>
          cases heq
          rw [sends, List.countP_cons_of_pos hfirst] at hzero
          exact absurd hzero (Nat.succ_ne_zero _)
      · exact hm
    · -- before the round any tag may be received
      have hskip : sends peer (a :: as) = sends peer as := List.countP_cons_of_neg hfirst
      have hquiet' : ∀ pre b rest, as = pre ++ b :: rest → (b.tagFrom peer).isSome →
          sends peer pre = 0 ∨ nCore ≤ sends peer pre := by
        intro pre b rest heq hb
        have hm := hquiet (a :: pre) b rest (by rw [heq, List.cons_append]) hb
        rwa [sends, List.countP_cons_of_neg hfirst] at hm
      cases a with
      | receive v =>
        refine ih (t := t.asDstToR v) ?_ htags' hquiet' (hskip ▸ hsome)
        rw [nxtLbTag_asDstToR]
        split_ifs with hsrc
        · exact htags _ List.mem_cons_self v.lbtag (by simp [Act.tagFrom, hsrc])
        · exact hstart
      | send dst rand =>
        have hdst : dst ≠ peer := by simpa [Act.sentTo] using hfirst
        simp only [fedBack, if_neg hdst]
        refine ih ?_ htags' hquiet' (hskip ▸ hsome)
        rw [nxtLbTag_asSrcToR, if_neg hdst]
        exact hstart

/-- Going round the cores reaches each of them. -/
theorem exists_round {p c : Nat} (hp : p < nCore) (hc : c < nCore) :
    ∃ k < nCore, (p + k) % nCore = c := by
  rcases Nat.le_total p c with hle | hle
  · exact ⟨c - p, by omega, by rw [Nat.add_sub_cancel' hle, Nat.mod_eq_of_lt hc]⟩
  · refine ⟨(c + nCore - p) % nCore, Nat.mod_lt _ (by omega), ?_⟩
    rw [Nat.add_mod_mod, show p + (c + nCore - p) = c + nCore by omega, Nat.add_mod_right,
      Nat.mod_eq_of_lt hc]

/-- After ToR `t` records the metric of `v`, a packet sent to the peer feeds back the tag
    received from it last, advanced by the packets sent to it since; and one of the next
    `nCore` packets feeds back the tag of `v`, unless it is disturbed. -/
theorem recorded_fedBack (nCore : Nat) (t : ToR) (v : Vxlan) (as : List Act)
    (htag : v.lbtag < nCore)
    (htags : ∀ a ∈ as, ∀ c ∈ a.tagFrom v.src, c < nCore) :
    (∀ pre rand rest, as = pre ++ .send v.src rand :: rest →
      ((pre.foldl (act nCore) (t.asDstToR v)).asSrcToR nCore rand v.src).2.fbLbtag =
        (lastTag v.src v.lbtag pre + sendsSince v.src pre) % nCore) ∧
    (Undisturbed nCore v.src v.lbtag as → nCore ≤ sends v.src as →
      v.lbtag ∈ (fedBack nCore v.src (t.asDstToR v) as).take nCore) := by
  have hnext : (t.asDstToR v).nxtLbTag v.src = v.lbtag := by
    rw [nxtLbTag_asDstToR, if_pos rfl]
  have hpos : 0 < nCore := Nat.zero_lt_of_lt htag
  constructor
  · intro pre rand rest heq
    have hpre := @nxtLbTag_foldl nCore v.src (t.asDstToR v) pre (hnext ▸ htag)
      fun a ha => htags a (by rw [heq]; exact List.mem_append_left _ ha)
    rwa [hnext] at hpre
  · intro hquiet hsends
    -- a tag among the first `nCore` is one of them
    have hmem : ∀ k < nCore, (fedBack nCore v.src (t.asDstToR v) as)[k]? = some v.lbtag →
        v.lbtag ∈ (fedBack nCore v.src (t.asDstToR v) as).take nCore := by
      intro k hk hget
      refine List.mem_of_getElem? (i := k) ?_
      rw [List.getElem?_take_of_lt hk]
      exact hget
    rcases hquiet with hpure | hround
    · refine hmem 0 hpos ?_
      rw [← List.head?_eq_getElem?]
      exact fedBack_head hnext hpure (hpos.trans_le hsends)
    · obtain ⟨p, hp, hget⟩ := fedBack_round (hnext ▸ htag) htags hround hsends
      obtain ⟨k, hk, heq⟩ := exists_round hp htag
      exact hmem k hk (by rw [hget k hk, heq])

/-- A packet from leaf 1 with the given tag, for leaf 0. -/
def tagged (lbtag : Nat) : Vxlan :=
  { src := 1, dst := 0, lbtag := lbtag, ce := 5, fbLbtag := 0, fbCe := 0 }

/-- With two cores, a metric of core 0 that is recorded before two packets are sent. -/
theorem recorded_fedBack_two :
    (tagged 0).lbtag ∈
      (fedBack 2 (tagged 0).src ((new 0 fun _ => 0).asDstToR (tagged 0))
        [.send 1 0, .send 1 0]).take 2 :=
  (recorded_fedBack 2 (new 0 fun _ => 0) (tagged 0) [.send 1 0, .send 1 0] (by decide)
    (by decide)).2 (Or.inl (by
      intro pre a rest heq _ tag htag
      have ha : a ∈ [Act.send 1 0, .send 1 0] := by rw [heq]; simp
      have hnone : ∀ b ∈ [Act.send 1 0, .send 1 0], b.tagFrom (tagged 0).src = none := by decide
      rw [hnone a ha] at htag
      cases htag)) (by decide)

/-- With two cores, when a packet with tag 1 is received before each packet sent, none of
    these feeds back the metric recorded for core 0. -/
theorem starved :
    2 ≤ sends (tagged 0).src
        [.receive (tagged 1), .send 1 0, .receive (tagged 1), .send 1 0] ∧
      (tagged 0).lbtag ∉
        (fedBack 2 (tagged 0).src ((new 0 fun _ => 0).asDstToR (tagged 0))
          [.receive (tagged 1), .send 1 0, .receive (tagged 1), .send 1 0]).take 2 := by
  decide

end ToR
end Conga
end DatacenterNetworking
