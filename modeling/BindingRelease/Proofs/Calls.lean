import BindingRelease.Proofs.Publishing
/-!
The calls of a trace: the processes it starts and the requests it sends to the release host, each
with the number of looks at the signal before it. A part of a run keeps a plan if its calls begin
the plan, none comes after a process that failed or a look that found the run cancelled, and a part
that gives a value has made them all.
-/
namespace BindingRelease

/-- What is asked of the world outside. -/
inductive Call where
  | process (command : CommandLine) (directory : Option Path)
  | request (r : HttpRequest)

namespace Call

def ofLaunch (p : Launch) : Call := .process p.command p.directory

def isProcess : Call → Bool
  | process _ _ => true
  | request _ => false

def ofEvent : Event → Option Call
  | ⟨.start p, _⟩ => some (ofLaunch p)
  | ⟨.send r, _⟩ => some (.request r)
  | _ => none

end Call

/-- A process that ended with zero, a look at the signal that let the context go on, or anything
that is neither. -/
def Clear : Event → Prop
  | ⟨.start _, x⟩ => LaunchResult.Succeeded x
  | ⟨.isCancelled, cancelled⟩ => cancelled = false
  | _ => True

namespace Trace

def calls (t : Trace) : List Call := t.filterMap Call.ofEvent

def isLook : Event → Bool
  | ⟨.isCancelled, _⟩ => true
  | _ => false

def looks (t : Trace) : Nat := t.countP isLook

/-- The calls with the number of looks before each, counted on from a number. -/
def staged : Nat → Trace → List (Nat × Call)
  | _, [] => []
  | n, ev :: t =>
    ((Call.ofEvent ev).map (n, ·)).toList ++ staged (if isLook ev then n + 1 else n) t

def stamped (n : Nat) (cs : List Call) : List (Nat × Call) := cs.map (n, ·)

/-- Every call comes after clear events only. -/
def Gated (t : Trace) : Prop :=
  t.Pairwise fun earlier later => (Call.ofEvent later).isSome → Clear earlier

/-- A part of a run begins the plan, and with it `n` looks have become `m` once it is through. -/
structure Keeps (n m : Nat) (plan : List (Nat × Call)) (t : Trace) (through : Prop) : Prop where
  order : staged n t <+: plan
  gated : Gated t
  complete : through → staged n t = plan ∧ n + looks t = m ∧ ∀ ev ∈ t, Clear ev

variable {n m k : Nat} {plan plan' : List (Nat × Call)} {t u : Trace} {through through' : Prop}

theorem staged_append (n : Nat) (t u : Trace) :
    staged n (t ++ u) = staged n t ++ staged (n + looks t) u := by
  induction t generalizing n with
  | nil => simp [staged, looks]
  | cons ev t ih =>
    simp only [List.cons_append, staged, ih, List.append_assoc, looks, List.countP_cons]
    cases isLook ev
    · simp
    · simp [Nat.add_comm, Nat.add_left_comm]

theorem looks_append (t u : Trace) : looks (t ++ u) = looks t + looks u :=
  List.countP_append

theorem stamped_append (n : Nat) (cs ds : List Call) :
    stamped n (cs ++ ds) = stamped n cs ++ stamped n ds :=
  List.map_append

theorem snd_mem_of_mem_stamped {n : Nat} {cs : List Call} {x : Nat × Call}
    (h : x ∈ stamped n cs) : x.2 ∈ cs := by
  obtain ⟨c, hc, rfl⟩ := List.mem_map.mp h
  exact hc

theorem snd_staged (n : Nat) (t : Trace) : (staged n t).map Prod.snd = calls t := by
  induction t generalizing n with
  | nil => rfl
  | cons ev t ih =>
    simp only [staged, List.map_append, ih, calls, List.filterMap_cons]
    cases Call.ofEvent ev <;> simp

theorem staged_eq_of_looks (h : looks t = 0) : staged n t = stamped n (calls t) := by
  induction t with
  | nil => rfl
  | cons ev t ih =>
    simp only [looks, List.countP_cons, Nat.add_eq_zero_iff] at h
    obtain ⟨ht, hev⟩ := h
    have hn : isLook ev = false := by simpa using hev
    simp only [staged, hn, calls, List.filterMap_cons]
    rw [if_neg (by simp), ih ht]
    cases Call.ofEvent ev <;> simp [calls, stamped]

namespace Keeps

theorem mem_plan (h : Keeps n m plan t through) {ev : Event} {c : Call} (hev : ev ∈ t)
    (hc : Call.ofEvent ev = some c) : ∃ x ∈ plan, x.2 = c := by
  have hcall : c ∈ (staged n t).map Prod.snd := by
    rw [snd_staged]
    exact List.mem_filterMap.mpr ⟨ev, hev, hc⟩
  obtain ⟨x, hx, rfl⟩ := List.mem_map.mp hcall
  exact ⟨x, h.order.subset hx, rfl⟩

theorem unsent (h : Keeps n m plan t through) (hp : ∀ x ∈ plan, x.2.isProcess) :
    ∀ ev ∈ t, ∀ q, ev.1 ≠ .send q := by
  rintro ⟨r, x⟩ hev q hq
  obtain rfl : r = .send q := hq
  obtain ⟨y, hy, hr⟩ := h.mem_plan hev rfl
  have hb := hp y hy
  rw [hr] at hb
  cases hb

theorem append (h : Keeps n m plan t through) (ht : through)
    (h' : Keeps m k plan' u through') : Keeps n k (plan ++ plan') (t ++ u) through' := by
  obtain ⟨hs, hm, hc⟩ := h.complete ht
  refine ⟨?_, ?_, ?_⟩
  · rw [staged_append, hs, hm]
    exact (List.prefix_append_right_inj plan).mpr h'.order
  · exact List.pairwise_append.mpr ⟨h.gated, h'.gated, fun a ha _ _ _ => hc a ha⟩
  · intro ht'
    obtain ⟨hs', hk, hc'⟩ := h'.complete ht'
    refine ⟨?_, ?_, ?_⟩
    · rw [staged_append, hs, hm, hs']
    · rw [looks_append, ← hk, ← hm, Nat.add_assoc]
    · intro ev hev
      cases List.mem_append.mp hev with
      | inl h₁ => exact hc ev h₁
      | inr h₁ => exact hc' ev h₁

theorem congr (h : Keeps n m plan t through) (ht : through' → through) :
    Keeps n m plan t through' :=
  ⟨h.order, h.gated, fun h' => h.complete (ht h')⟩

theorem unfinished (h : Keeps n m plan t through) (k : Nat) : Keeps n k plan t False :=
  ⟨h.order, h.gated, False.elim⟩

theorem halt (h : Keeps n m plan t through) (plan' : List (Nat × Call)) (k : Nat) :
    Keeps n k (plan ++ plan') t False where
  order := h.order.trans (List.prefix_append _ _)
  gated := h.gated
  complete := False.elim

theorem nil : Keeps n n [] [] through :=
  ⟨List.prefix_refl _, .nil, fun _ => ⟨rfl, rfl, by simp⟩⟩

theorem stuck (plan : List (Nat × Call)) : Keeps n m plan [] False :=
  ⟨List.nil_prefix, .nil, False.elim⟩

theorem aside {ev : Event} (hc : Call.ofEvent ev = none) (hl : isLook ev = false) (he : Clear ev)
    (h : Keeps n m plan t through) : Keeps n m plan (ev :: t) through := by
  refine ⟨?_, ?_, ?_⟩
  · simpa [staged, hc, hl] using h.order
  · exact List.pairwise_cons.mpr ⟨fun _ _ _ => he, h.gated⟩
  · intro ht
    obtain ⟨hs, hm, hall⟩ := h.complete ht
    refine ⟨by simpa [staged, hc, hl] using hs, ?_, ?_⟩
    · simpa [looks, hl] using hm
    · intro e hmem
      rcases List.mem_cons.mp hmem with rfl | hmem
      · exact he
      · exact hall e hmem

theorem of_clear (hl : looks t = 0) (hc : ∀ ev ∈ t, Clear ev) :
    Keeps n n (stamped n (calls t)) t through where
  order := staged_eq_of_looks hl ▸ List.prefix_refl _
  gated := List.Pairwise.imp_of_mem (fun ha _ _ _ => hc _ ha)
    (List.pairwise_of_forall fun _ _ => trivial)
  complete _ := ⟨staged_eq_of_looks hl, by rw [hl, Nat.add_zero], hc⟩

theorem of_looks (h : ∀ ev ∈ t, ev.1.surveys) : Keeps n n [] t through := by
  induction t with
  | nil => exact .nil
  | cons ev t ih =>
    obtain ⟨hev, ht⟩ := List.forall_mem_cons.mp h
    obtain ⟨q, x⟩ := ev
    cases q <;> first | exact .aside rfl rfl trivial (ih ht) | cases hev

theorem of_surveys (h : t.Surveys) : Keeps n n [] t through :=
  of_looks fun ev hev => (h ev hev).1

theorem process {accept : Finished → α} {refuse : Finished → Failure} {onError : String → Failure}
    {p : Launch} {c : Call} (hp : Call.ofLaunch p = c) (x : LaunchResult) :
    Keeps n n (stamped n [c]) [⟨.start p, x⟩]
      (∃ a, x.outcome accept refuse onError = .ok a) where
  order := hp ▸ List.prefix_refl _
  gated := List.pairwise_singleton _ _
  complete := by
    rintro ⟨a, ha⟩
    refine ⟨hp ▸ rfl, rfl, ?_⟩
    intro ev hev
    cases List.mem_singleton.mp hev
    exact .of_outcome ha

theorem enter {signal : Bool} (h : Keeps (n + signal.toNat) m plan t through) :
    Keeps n m plan (Context.entry signal ++ t) through := by
  cases signal with
  | false => exact h
  | true =>
    refine ⟨h.order, List.pairwise_cons.mpr ⟨fun _ _ _ => rfl, h.gated⟩, ?_⟩
    intro ht
    obtain ⟨hs, hm, hall⟩ := h.complete ht
    refine ⟨hs, ?_, ?_⟩
    · have hl : looks (⟨.isCancelled, false⟩ :: t) = looks t + 1 := List.countP_cons_of_pos rfl
      change n + looks (⟨.isCancelled, false⟩ :: t) = m
      rw [hl, ← hm, Bool.toNat_true, Nat.add_assoc, Nat.add_comm 1]
    · intro e hmem
      rcases List.mem_cons.mp hmem with rfl | hmem
      · rfl
      · exact hall e hmem

theorem refusal (plan : List (Nat × Call)) : Keeps n m plan Context.refusal False :=
  ⟨List.nil_prefix, List.pairwise_singleton _ _, False.elim⟩

theorem cancelled (h : Keeps n m plan t through) (ht : through) (plan' : List (Nat × Call))
    (k : Nat) : Keeps n k (plan ++ plan') (t ++ Context.refusal) False :=
  h.append ht (.refusal plan')

end Keeps
end Trace
end BindingRelease
