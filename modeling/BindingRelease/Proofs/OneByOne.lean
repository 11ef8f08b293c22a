import BindingRelease.Proofs.FanOut
/-!
Runs of a single worker. Its contexts run one after the other in their order, whatever the schedule
says, and a collector that has nothing to do asks for nothing; so the trace of a run is made of the
traces of its contexts, one behind the other. In given surroundings each context begins where the
one before it ended.
-/
namespace BindingRelease
variable {α σ : Type}

/-- The programs run one after the other, each along its own trace and to its own end. -/
inductive InTurn : List (Program α) → List Trace → List α → Prop
  | nil : InTurn [] [] []
  | cons {p : Program α} {ps : List (Program α)} {t : Trace} {ts : List Trace} {a : α}
      {as : List α} (h : p.Runs t a) (hs : InTurn ps ts as) : InTurn (p :: ps) (t :: ts) (a :: as)

namespace Pool
variable {collect : List α → Program Unit} {ss ss' : List (Slot α)} {as : List α} {ts : List Trace}

theorem collected_first (h : InTurn (ss.map Slot.complete) ts as) : collected ss <+: as := by
  induction ss generalizing ts as with
  | nil => exact List.nil_prefix
  | cons s ss ih =>
    cases h with
    | cons h hs =>
      cases s with
      | waiting p | running p => exact List.nil_prefix
      | finished a =>
        obtain ⟨-, rfl⟩ := h
        exact List.prefix_cons_inj _ |>.mpr (ih hs)

theorem InOrder.ask {i : Nat} {r : Request} {next : r.Answer → Program α} {x : r.Answer}
    (ho : InOrder ss) (hi : ss[i]? = some (.running (.ask r next)))
    (h : InTurn ((ss.set i (.running (next x))).map Slot.complete) ts as) :
    ∃ ts', ts'.flatten = ⟨r, x⟩ :: ts.flatten ∧ InTurn (ss.map Slot.complete) ts' as := by
  have idle {i : Nat} {ss : List (Slot α)} (hw : ∀ s ∈ ss, ∃ p, s = .waiting p)
      (hi : ss[i]? = some (.running (.ask r next))) : False := by
    obtain ⟨p, hp⟩ := hw _ (List.mem_of_getElem? hi)
    cases hp
  induction ho generalizing i ts as with
  | waiting hw => exact (idle hw hi).elim
  | running hw =>
    cases i with
    | succ i => exact (idle hw hi).elim
    | zero =>
      cases hi
      cases h with
      | @cons _ _ t ts a as h hs =>
        exact ⟨(⟨r, x⟩ :: t) :: ts, by simp, .cons ⟨x, t, rfl, h⟩ hs⟩
  | finished _ ih =>
    cases i with
    | zero => cases hi
    | succ i =>
      cases h with
      | @cons _ _ t ts a as h hs =>
        obtain ⟨rfl, rfl⟩ := h
        obtain ⟨ts', ht, hs'⟩ := ih hi hs
        exact ⟨[] :: ts', by simpa using ht, .cons ⟨rfl, rfl⟩ hs'⟩

theorem complete_set_finished {i : Nat} {a : α} (hi : ss[i]? = some (.running (.done a))) :
    (ss.set i (.finished a)).map Slot.complete = ss.map Slot.complete := by
  induction ss generalizing i with
  | nil => cases hi
  | cons s ss ih =>
    cases i with
    | zero =>
      cases hi
      rfl
    | succ i => exact congrArg (s.complete :: ·) (ih hi)

def Quiet (collect : List α → Program Unit) (as : List α) : Prop :=
  ∀ bs, bs <+: as → collect bs = .done ()

theorem drain_inTurn {before : List α} {t : Trace} (hq : Quiet collect as)
    (h : (drain collect before ss).Runs t as) :
    ∃ ts os, as = before ++ os ∧ t = ts.flatten ∧ InTurn (ss.map Slot.complete) ts os := by
  induction ss generalizing before t with
  | nil =>
    obtain ⟨rfl, rfl⟩ := h
    exact ⟨[], [], by simp, rfl, .nil⟩
  | cons s ss ih =>
    obtain ⟨t₁, t', a, rfl, hs, h⟩ := Program.runs_bind.mp h
    obtain ⟨t₂, t₃, ⟨⟩, rfl, hc, h⟩ := Program.runs_bind.mp h
    obtain ⟨ts, os, rfl, rfl, hin⟩ := ih h
    rw [hq _ (List.prefix_append _ _)] at hc
    obtain ⟨rfl, -⟩ := hc
    exact ⟨t₁ :: ts, a :: os, by simp, by simp, .cons hs hin⟩

theorem follow_inTurn {schedule : List Nat} {t : Trace} (hq : Quiet collect as) (ho : InOrder ss)
    (h : (follow collect 1 schedule ss).Runs t as) :
    ∃ ts, t = ts.flatten ∧ InTurn (ss.map Slot.complete) ts as := by
  induction schedule generalizing ss t with
  | nil =>
    obtain ⟨ts, os, rfl, rfl, hin⟩ := drain_inTurn hq h
    exact ⟨ts, rfl, hin⟩
  | cons i schedule ih =>
    obtain ⟨t₁, t₂, ss', rfl, h₁, h₂⟩ := Program.runs_bind.mp h
    obtain ⟨ts, rfl, hin⟩ := ih (ho.refill.advance h₁) h₂
    rw [← complete_refill 1 ss]
    unfold advance at h₁
    split at h₁
    case h_1 r next hi =>
      obtain ⟨x, t', rfl, rfl, rfl⟩ := h₁
      obtain ⟨ts', ht, hin'⟩ := ho.refill.ask hi hin
      exact ⟨ts', by simp [ht], hin'⟩
    case h_2 a hi =>
      obtain ⟨⟨⟩, rfl, hc⟩ := Program.runs_map.mp h₁
      rw [hq _ (collected_first hin)] at hc
      obtain ⟨rfl, -⟩ := hc
      refine ⟨ts, rfl, ?_⟩
      rwa [complete_set_finished hi] at hin
    case h_3 =>
      obtain ⟨rfl, rfl⟩ := h₁
      exact ⟨ts, rfl, hin⟩

/-- A single worker runs the programs one after the other. -/
theorem run_inTurn {wish : Option Int} {schedule : List Nat} {ps : List (Program α)} {t : Trace}
    (hone : workersFor wish ps.length = 1) (hq : Quiet collect as)
    (h : (run collect wish schedule ps).Runs t as) : ∃ ts, t = ts.flatten ∧ InTurn ps ts as := by
  unfold run at h
  rw [hone] at h
  obtain ⟨ts, ht, hin⟩ := follow_inTurn hq (.waiting (by simp)) h
  refine ⟨ts, ht, ?_⟩
  simpa [List.map_map, Function.comp_def, Slot.complete] using hin

end Pool

namespace Outcome

theorem firstCrash_of_first {os os' : List Outcome} (h : firstCrash os = none) (hp : os' <+: os) :
    firstCrash os' = none :=
  firstCrash_eq_none.mpr fun o ho => firstCrash_eq_none.mp h o (hp.subset ho)

theorem quiet_watch {signal : Bool} {os : List Outcome} (h : firstCrash os = none) :
    Pool.Quiet (watch signal) os := by
  intro os' hp
  simp only [watch, firstCrash_of_first h hp]

end Outcome

theorem fanOut_inTurn {signal : Bool} {wish : Option Int} {schedule : List Nat}
    {contexts : List (Program Outcome)} {t : Trace} {j : Journal} {rs : List Report}
    (hone : Pool.workersFor wish contexts.length = 1)
    (h : (fanOut signal wish schedule contexts).Runs t j (.ok rs)) :
    ∃ ts os, t = ts.flatten ∧ InTurn contexts ts os ∧ Outcome.verdict os = .ok rs := by
  obtain ⟨os, ho, hrun⟩ := Program.runs_map.mp h
  have hv : Outcome.verdict os = .ok rs := (Prod.mk.inj ho).2.symm
  obtain ⟨ts, ht, hin⟩ :=
    Pool.run_inTurn hone (Outcome.quiet_watch (Outcome.firstCrash_of_verdict hv)) hrun
  exact ⟨ts, os, ht, hin, hv⟩

namespace Program
variable {answer : (r : Request) → σ → r.Answer × σ}

theorem Runs.unique {p : Program α} {t : Trace} {a : α} {w w' : σ} (h : p.Runs t a)
    (hl : Trace.Leads (Answered answer) w t w') :
    t = p.trace answer w ∧ p.runWith answer w = (a, w') := by
  induction p generalizing t w with
  | done b =>
    obtain ⟨rfl, rfl⟩ := h
    cases hl
    exact ⟨rfl, rfl⟩
  | ask r next ih =>
    obtain ⟨x, t', rfl, h⟩ := h
    obtain ⟨m, ⟨hx, hm⟩, hl⟩ := hl
    obtain rfl : x = (answer r w).1 := hx
    obtain rfl : m = (answer r w).2 := hm
    obtain ⟨ht, hr⟩ := ih _ h hl
    exact ⟨by rw [trace, ← ht], hr⟩

end Program
end BindingRelease
