import BindingRelease.Pool
import BindingRelease.Proofs.Trace
/-!
Interleavings: the requests of a pool are those of its programs, each run to its own end along its
own share of the trace, and those of the collector. A chain of transitions over the whole trace is,
for one program, a chain over its share in which the others may step in between.
-/
namespace BindingRelease
variable {α σ : Type}

/-- A trace whose events name the program that asked; those of the collector name none. -/
abbrev Tagged := List (Option Nat × Event)

namespace Tagged

def share (i : Nat) (l : Tagged) : Trace :=
  l.filterMap fun e => if e.1 = some i then some e.2 else none

def askedBy (i : Option Nat) (t : Trace) : Tagged :=
  t.map fun e => (i, e)

theorem share_append (i : Nat) (l m : Tagged) : share i (l ++ m) = share i l ++ share i m :=
  List.filterMap_append

theorem map_askedBy (i : Option Nat) (t : Trace) : (askedBy i t).map Prod.snd = t := by
  simp [askedBy, Function.comp_def]

theorem share_askedBy_self (i : Nat) (t : Trace) : share i (askedBy (some i) t) = t := by
  induction t with
  | nil => rfl
  | cons ev t ih =>
    have hs : share i (askedBy (some i) (ev :: t)) = ev :: share i (askedBy (some i) t) := by
      simp [share, askedBy]
    rw [hs, ih]

theorem share_askedBy_of_ne {i : Nat} {o : Option Nat} (h : o ≠ some i) (t : Trace) :
    share i (askedBy o t) = [] := by
  simp [share, askedBy, h]

theorem mem_share {i : Nat} {l : Tagged} {e : Event} : e ∈ share i l ↔ (some i, e) ∈ l := by
  simp only [share, List.mem_filterMap]
  constructor
  · rintro ⟨⟨o, e'⟩, h, he⟩
    split at he
    · next ho =>
      cases he
      exact ho ▸ h
    · cases he
  · intro h
    exact ⟨(some i, e), h, by simp⟩

theorem share_eq_nil {i : Nat} {l : Tagged} (h : ∀ e, (some i, e) ∉ l) : share i l = [] :=
  List.eq_nil_iff_forall_not_mem.mpr fun e he => h e (mem_share.mp he)

def Serial (l : Tagged) : Prop :=
  l.Pairwise fun a b => ∀ i j, a.1 = some i → b.1 = some j → i ≤ j

theorem serial_of_one {i : Nat} {l : Tagged} (h : ∀ k e, (some k, e) ∈ l → k = i) : Serial l := by
  refine List.Pairwise.imp_of_mem ?_ (List.pairwise_of_forall fun _ _ => trivial)
  rintro ⟨_, e⟩ ⟨_, e'⟩ he he' - j k rfl rfl
  obtain rfl := h j e he
  obtain rfl := h k e' he'
  exact Nat.le_refl _

theorem Serial.append {l m : Tagged} (h : Serial l) (hm : Serial m)
    (hlm : ∀ i e j e', (some i, e) ∈ l → (some j, e') ∈ m → i ≤ j) : Serial (l ++ m) := by
  refine List.pairwise_append.mpr ⟨h, hm, ?_⟩
  rintro ⟨_, e⟩ he ⟨_, e'⟩ he' i j rfl rfl
  exact hlm i e j e' he he'

end Tagged
open Tagged

namespace Pool
variable {collect : List α → Program Unit}

/-- The programs go on from `ps` to `qs`, each along its share of the events, and all other events
are the collector's. -/
structure Advances (collect : List α → Program Unit) (ps qs : List (Program α)) (l : Tagged) :
    Prop where
  length : qs.length = ps.length
  each : ∀ (k : Nat) q, qs[k]? = some q →
    ∃ p, ps[k]? = some p ∧ ∀ t a, q.Runs t a → p.Runs (share k l ++ t) a
  known : ∀ i e, (some i, e) ∈ l → i < ps.length
  collector : ∀ e, (none, e) ∈ l → ∃ rs u, (collect rs).Runs u () ∧ e ∈ u

theorem Advances.refl (ps : List (Program α)) : Advances collect ps ps [] where
  length := rfl
  each _ q h := ⟨q, h, fun _ _ h => h⟩
  known _ _ h := by cases h
  collector _ h := by cases h

theorem advance_runs {i : Nat} {ss ss' : List (Slot α)} {t : Trace}
    (h : (advance collect i ss).Runs t ss') :
    ∃ l : Tagged, l.map Prod.snd = t ∧
      Advances collect (ss.map Slot.complete) (ss'.map Slot.complete) l ∧
      ∀ k e, (some k, e) ∈ l → k = i ∧ ∃ p, ss[i]? = some (.running p) := by
  unfold advance at h
  split at h
  case h_1 r next hi =>
    obtain ⟨x, t', rfl, rfl, rfl⟩ := h
    have hlt : i < ss.length := (List.getElem?_eq_some_iff.mp hi).1
    refine ⟨[(some i, ⟨r, x⟩)], rfl, ⟨by simp, ?_, by simpa using hlt, by simp⟩, by simp [hi]⟩
    intro k q hq
    rw [List.getElem?_map, List.getElem?_set] at hq
    by_cases hk : i = k
    · subst hk
      have hq' : next x = q := by simpa [hlt, Slot.complete] using hq
      refine ⟨.ask r next, by simp [hi, Slot.complete], ?_⟩
      intro t a hr
      exact ⟨x, t, by simp [share], hq' ▸ hr⟩
    · refine ⟨q, by simpa [hk] using hq, ?_⟩
      intro t a hr
      simpa [share, hk] using hr
  case h_2 a hi =>
    obtain ⟨u, rfl, hu⟩ := Program.runs_map.mp h
    refine ⟨askedBy none t, map_askedBy none t, ⟨by simp, ?_, by simp [askedBy], ?_⟩,
      by simp [askedBy]⟩
    · intro k q hq
      rw [List.getElem?_map, List.getElem?_set] at hq
      refine ⟨q, ?_, fun t' a hr => by rwa [share_askedBy_of_ne (by simp)]⟩
      by_cases hk : i = k
      · subst hk
        have hlt : i < ss.length := (List.getElem?_eq_some_iff.mp hi).1
        have hq' : .done a = q := by simpa [hlt, Slot.complete] using hq
        rw [List.getElem?_map, hi, ← hq']
        rfl
      · simpa [hk] using hq
    · intro e he
      exact ⟨_, t, hu, by simpa [askedBy] using he⟩
  case h_3 =>
    obtain ⟨rfl, rfl⟩ := h
    exact ⟨[], rfl, Advances.refl _, by simp⟩

theorem complete_fill (n : Nat) (ss : List (Slot α)) :
    (fill n ss).map Slot.complete = ss.map Slot.complete := by
  fun_induction fill n ss with
  | case1 => rfl
  | case2 => rfl
  | case3 n p ss ih => simp [Slot.complete, ih]
  | case4 n s ss hs ih => simp [ih]

theorem complete_refill (workers : Nat) (ss : List (Slot α)) :
    (refill workers ss).map Slot.complete = ss.map Slot.complete :=
  complete_fill _ _

/-- The slots of a single worker: those before the one that runs are finished, and those behind
it wait. -/
inductive InOrder : List (Slot α) → Prop
  | waiting {ss : List (Slot α)} (h : ∀ s ∈ ss, ∃ p, s = .waiting p) : InOrder ss
  | running {p : Program α} {ss : List (Slot α)} (h : ∀ s ∈ ss, ∃ p, s = .waiting p) :
      InOrder (.running p :: ss)
  | finished {a : α} {ss : List (Slot α)} (h : InOrder ss) : InOrder (.finished a :: ss)

theorem countP_running {ss : List (Slot α)} (h : ∀ s ∈ ss, ∃ p, s = .waiting p) :
    ss.countP Slot.isRunning = 0 := by
  refine List.countP_eq_zero.mpr fun s hs => ?_
  obtain ⟨p, rfl⟩ := h s hs
  simp [Slot.isRunning]

theorem fill_finished (n : Nat) (a : α) (ss : List (Slot α)) :
    fill n (.finished a :: ss) = .finished a :: fill n ss := by
  cases n <;> simp [fill]

theorem InOrder.refill {ss : List (Slot α)} (h : InOrder ss) : InOrder (refill 1 ss) := by
  induction h with
  | @waiting ss h =>
    unfold Pool.refill
    rw [countP_running h]
    cases ss with
    | nil => exact .waiting h
    | cons s ss =>
      obtain ⟨p, rfl⟩ := h s (by simp)
      have hss : ∀ s ∈ ss, ∃ p, s = .waiting p := fun s hs => h s (List.mem_cons_of_mem _ hs)
      simpa [fill] using InOrder.running hss
  | @running p ss h =>
    unfold Pool.refill
    rw [List.countP_cons_of_pos (by rfl), countP_running h]
    simpa [fill] using InOrder.running h
  | @finished a ss h ih =>
    unfold Pool.refill at ih ⊢
    rw [List.countP_cons_of_neg (by simp [Slot.isRunning]), fill_finished]
    exact .finished ih

theorem InOrder.set {i : Nat} {ss : List (Slot α)} {p : Program α} {s : Slot α} (h : InOrder ss)
    (hi : ss[i]? = some (.running p)) (hs : (∃ q, s = .running q) ∨ ∃ a, s = .finished a) :
    InOrder (ss.set i s) := by
  have unmoved {i : Nat} {ss : List (Slot α)} (h : ∀ s ∈ ss, ∃ p, s = .waiting p)
      (hi : ss[i]? = some (.running p)) : False := by
    obtain ⟨q, hq⟩ := h _ (List.mem_of_getElem? hi)
    cases hq
  induction h generalizing i with
  | waiting h => exact (unmoved h hi).elim
  | running h =>
    cases i with
    | zero =>
      obtain ⟨q, rfl⟩ | ⟨a, rfl⟩ := hs
      · exact .running h
      · exact .finished (.waiting h)
    | succ i => exact (unmoved h hi).elim
  | finished h ih =>
    cases i with
    | zero => cases hi
    | succ i => exact .finished (ih hi)

theorem InOrder.finished_before {i k : Nat} {ss : List (Slot α)} {p : Program α} (h : InOrder ss)
    (hi : ss[i]? = some (.running p)) (hk : k < i) : ∃ a, ss[k]? = some (.finished a) := by
  induction h generalizing i k with
  | waiting h =>
    obtain ⟨q, hq⟩ := h _ (List.mem_of_getElem? hi)
    cases hq
  | running h =>
    cases i with
    | zero => omega
    | succ i =>
      obtain ⟨q, hq⟩ := h _ (List.mem_of_getElem? hi)
      cases hq
  | @finished a ss h ih =>
    cases i with
    | zero => cases hi
    | succ i =>
      cases k with
      | zero => exact ⟨a, rfl⟩
      | succ k => exact ih hi (by omega)

theorem InOrder.advance {i : Nat} {ss ss' : List (Slot α)} {t : Trace} (h : InOrder ss)
    (hr : (advance collect i ss).Runs t ss') : InOrder ss' := by
  unfold Pool.advance at hr
  split at hr
  case h_1 r next hi =>
    obtain ⟨x, t', -, -, rfl⟩ := hr
    exact h.set hi (.inl ⟨_, rfl⟩)
  case h_2 a hi =>
    obtain ⟨u, rfl, -⟩ := Program.runs_map.mp hr
    exact h.set hi (.inr ⟨_, rfl⟩)
  case h_3 =>
    obtain ⟨-, rfl⟩ := hr
    exact h

/-- Programs that run side by side end as if each had run along its share alone. -/
structure Interleaves (collect : List α → Program Unit) (ps : List (Program α)) (l : Tagged)
    (as : List α) : Prop where
  length : as.length = ps.length
  each : ∀ (k : Nat) p, ps[k]? = some p → ∃ a, as[k]? = some a ∧ p.Runs (share k l) a
  known : ∀ i e, (some i, e) ∈ l → i < ps.length
  collector : ∀ e, (none, e) ∈ l → ∃ rs u, (collect rs).Runs u () ∧ e ∈ u

theorem Interleaves.program {ps : List (Program α)} {l : Tagged} {as : List α} {k : Nat} {a : α}
    (h : Interleaves collect ps l as) (ha : as[k]? = some a) :
    ∃ p, ps[k]? = some p ∧ p.Runs (share k l) a := by
  have hlt : k < ps.length := h.length ▸ (List.getElem?_eq_some_iff.mp ha).1
  have hp := List.getElem?_eq_getElem hlt
  obtain ⟨a', ha', hr⟩ := h.each k _ hp
  rw [ha] at ha'
  cases ha'
  exact ⟨_, hp, hr⟩

theorem Advances.interleaves {ps qs : List (Program α)} {l m : Tagged} {as : List α}
    (h : Advances collect ps qs l) (hm : Interleaves collect qs m as) :
    Interleaves collect ps (l ++ m) as where
  length := hm.length.trans h.length
  each k p hp := by
    have hk : k < qs.length := by
      rw [h.length]
      exact (List.getElem?_eq_some_iff.mp hp).1
    obtain ⟨p', hp', hr⟩ := h.each k qs[k] (List.getElem?_eq_getElem hk)
    obtain ⟨a, ha, hra⟩ := hm.each k qs[k] (List.getElem?_eq_getElem hk)
    have he : p' = p := by simpa [hp] using hp'.symm
    subst he
    exact ⟨a, ha, by simpa [share_append] using hr _ _ hra⟩
  known i e he := by
    cases List.mem_append.mp he with
    | inl h' => exact h.known i e h'
    | inr h' => exact h.length ▸ hm.known i e h'
  collector e he := by
    cases List.mem_append.mp he with
    | inl h' => exact h.collector e h'
    | inr h' => exact hm.collector e h'

theorem drain_runs {before as : List α} {ss : List (Slot α)} {t : Trace}
    (h : (drain collect before ss).Runs t as) :
    ∃ (l : Tagged) (os : List α), l.map Prod.snd = t ∧ as = before ++ os ∧
      os.length = ss.length ∧
      (∀ (k : Nat) s, ss[k]? = some s →
        ∃ o, os[k]? = some o ∧ s.complete.Runs (share (before.length + k) l) o) ∧
      (∀ i e, (some i, e) ∈ l → before.length ≤ i ∧ i < before.length + ss.length) ∧
      (∀ e, (none, e) ∈ l → ∃ rs u, (collect rs).Runs u () ∧ e ∈ u) ∧ l.Serial := by
  induction ss generalizing before t with
  | nil =>
    obtain ⟨rfl, rfl⟩ := h
    exact ⟨[], [], by simp [Tagged.Serial]⟩
  | cons s ss ih =>
    obtain ⟨t₁, t', o, rfl, hs, h⟩ := Program.runs_bind.mp h
    obtain ⟨t₂, t₃, ⟨⟩, rfl, hc, h⟩ := Program.runs_bind.mp h
    obtain ⟨l, os, rfl, rfl, hlen, heach, hnum, hcol, hserial⟩ := ih h
    have hnum' : ∀ i e, (some i, e) ∈ l →
        before.length < i ∧ i < before.length + (s :: ss).length := by
      intro i e he
      have := hnum i e he
      simp only [List.length_append, List.length_singleton] at this
      simp only [List.length_cons]
      omega
    have hown : ∀ i e, (some i, e) ∈ askedBy (some before.length) t₁ ++ askedBy none t₂ →
        i = before.length := by
      simp +contextual [askedBy]
    refine ⟨askedBy (some before.length) t₁ ++ askedBy none t₂ ++ l, o :: os, ?_, by simp,
      by simp [hlen], ?_, ?_, ?_, (serial_of_one hown).append hserial ?_⟩
    · simp [map_askedBy]
    · intro k s' hs'
      cases k with
      | zero =>
        cases hs'
        have hl : share before.length l = [] :=
          share_eq_nil fun e he => Nat.lt_irrefl _ (hnum' _ e he).1
        refine ⟨o, rfl, ?_⟩
        simpa [share_append, share_askedBy_self, share_askedBy_of_ne, hl] using hs
      | succ k =>
        obtain ⟨o', ho', hr⟩ := heach k s' hs'
        refine ⟨o', ho', ?_⟩
        rw [share_append, share_append, share_askedBy_of_ne (by simp),
          share_askedBy_of_ne (by simp)]
        simpa [Nat.add_assoc, Nat.add_comm 1] using hr
    · intro i e he
      simp only [askedBy, List.mem_append, List.mem_map, Prod.mk.injEq] at he
      rcases he with (⟨_, _, hi, _⟩ | ⟨_, _, hi, _⟩) | he
      · cases hi
        simp
      · cases hi
      · exact ⟨Nat.le_of_lt (hnum' i e he).1, (hnum' i e he).2⟩
    · intro e he
      simp only [askedBy, List.mem_append, List.mem_map, Prod.mk.injEq] at he
      rcases he with (⟨_, _, hi, _⟩ | ⟨_, hu, _, rfl⟩) | he
      · cases hi
      · exact ⟨_, _, hc, hu⟩
      · exact hcol e he
    · intro i e k e' he he'
      rw [hown i e he]
      exact Nat.le_of_lt (hnum' k e' he').1

theorem follow_runs {workers : Nat} {schedule : List Nat} {ss : List (Slot α)} {t : Trace}
    {as : List α} (h : (follow collect workers schedule ss).Runs t as) :
    ∃ l : Tagged, l.map Prod.snd = t ∧ Interleaves collect (ss.map Slot.complete) l as ∧
      (workers = 1 → InOrder ss → l.Serial) := by
  induction schedule generalizing ss t with
  | nil =>
    obtain ⟨l, os, hl, rfl, hlen, heach, hnum, hcol, hserial⟩ := drain_runs h
    refine ⟨l, hl, ⟨by simpa using hlen, ?_, by simpa using hnum, hcol⟩, fun _ _ => hserial⟩
    intro k p hp
    obtain ⟨s, hs, rfl⟩ : ∃ s, ss[k]? = some s ∧ s.complete = p := by simpa using hp
    simpa using heach k s hs
  | cons i schedule ih =>
    obtain ⟨t₁, t₂, ss', rfl, h₁, h₂⟩ := Program.runs_bind.mp h
    obtain ⟨l, rfl, hl, hown⟩ := advance_runs h₁
    obtain ⟨m, rfl, hm, hserial⟩ := ih h₂
    rw [complete_refill] at hl
    have hi := hl.interleaves hm
    refine ⟨l ++ m, by simp, hi, ?_⟩
    rintro rfl ho
    have ho' := ho.refill.advance h₁
    refine (serial_of_one fun k e he => (hown k e he).1).append (hserial rfl ho') ?_
    intro k e n e' he he'
    obtain ⟨rfl, p, hp⟩ := hown k e he
    -- a slot before the one that went on is finished, and its program asks nothing any more
    refine Nat.le_of_not_lt fun hn => ?_
    obtain ⟨a, ha⟩ := ho.refill.finished_before hp hn
    have hdone : (ss.map Slot.complete)[n]? = some (.done a) := by
      rw [← complete_refill 1, List.getElem?_map, ha]
      rfl
    obtain ⟨_, -, hnil, -⟩ := hi.each n _ hdone
    have hmem := mem_share.mpr (List.mem_append_right l he')
    rw [hnil] at hmem
    cases hmem

/-- Whatever the schedule and the number of workers, a pool's trace is made of the traces of its
programs. A single worker runs them one after the other. -/
theorem run_runs {wish : Option Int} {schedule : List Nat} {ps : List (Program α)} {t : Trace}
    {as : List α} (h : (run collect wish schedule ps).Runs t as) :
    ∃ l : Tagged, l.map Prod.snd = t ∧ Interleaves collect ps l as ∧
      (workersFor wish ps.length = 1 → l.Serial) := by
  obtain ⟨l, hl, hi, hserial⟩ := follow_runs h
  rw [List.map_map, Function.comp_def] at hi
  refine ⟨l, hl, by simpa [Slot.complete] using hi, fun hw => hserial hw (.waiting ?_)⟩
  simp

end Pool

namespace Trace
variable {step : σ → Event → σ → Prop} {rely : σ → σ → Prop}

/-- An event that comes after others may have changed the state. -/
def Disturbed (rely : σ → σ → Prop) (step : σ → Event → σ → Prop) (s : σ) (ev : Event) (s' : σ) :
    Prop :=
  ∃ m, rely s m ∧ step m ev s'

theorem Leads.tagged_ends {l : Tagged} {s s' : σ} (h : Leads step s (l.map Prod.snd) s')
    (rel : σ → σ → Prop) (refl : ∀ s, rel s s) (trans : ∀ a b c, rel a b → rel b c → rel a c)
    (each : ∀ i ev, (i, ev) ∈ l → ∀ a b, step a ev b → rel a b) : rel s s' := by
  refine h.ends rel refl trans ?_
  intro ev hev a b hs
  obtain ⟨⟨i, ev⟩, hmem, rfl⟩ := List.mem_map.mp hev
  exact each i ev hmem a b hs

/-- The share of one program leads on, with the events of the others as disturbances. -/
theorem Leads.share {i : Nat} {l : Tagged} {s s' : σ} (h : Leads step s (l.map Prod.snd) s')
    (refl : ∀ s, rely s s) (trans : ∀ a b c, rely a b → rely b c → rely a c)
    (others : ∀ o e, (o, e) ∈ l → o ≠ some i → ∀ a b, step a e b → rely a b) :
    ∃ m, Leads (Disturbed rely step) s (Tagged.share i l) m ∧ rely m s' := by
  -- generalised over a state from which the others have already led on
  suffices H : ∀ r, rely r s → ∃ m, Leads (Disturbed rely step) r (Tagged.share i l) m ∧
      rely m s' from H s (refl s)
  induction l generalizing s with
  | nil =>
    cases h
    exact fun r hr => ⟨r, rfl, hr⟩
  | cons e l ih =>
    obtain ⟨o, ev⟩ := e
    obtain ⟨n, hn, hl⟩ := h
    have ih := ih hl fun o e he => others o e (List.mem_cons_of_mem _ he)
    intro r hr
    by_cases ho : o = some i
    · obtain ⟨m, hm, hs'⟩ := ih n (refl n)
      exact ⟨m, by simpa [Tagged.share, ho] using ⟨n, ⟨s, hr, hn⟩, hm⟩, hs'⟩
    · obtain ⟨m, hm, hs'⟩ := ih r (trans _ _ _ hr (others o ev (by simp) ho _ _ hn))
      exact ⟨m, by simpa [Tagged.share, ho] using hm, hs'⟩

end Trace
end BindingRelease
