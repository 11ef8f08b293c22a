import BindingRelease.Request
/-!
Programs as trees: a program is done, or asks one request and goes on with the answer. Nothing is
assumed about where answers come from; `runWith` lets a state give them.
-/
namespace BindingRelease

inductive Program (α : Type) where
  | done (a : α)
  | ask (r : Request) (next : r.Answer → Program α)

namespace Program

def bind {α β : Type} : Program α → (α → Program β) → Program β
  | done a, f => f a
  | ask r next, f => ask r fun a => (next a).bind f

def map {α β : Type} (f : α → β) (p : Program α) : Program β :=
  p.bind fun a => done (f a)

instance : Monad Program where
  pure := done
  bind := bind

def request (r : Request) : Program r.Answer := ask r done

/-- Runs a program against a state that answers every request and may change by it. -/
def runWith {α σ : Type} (answer : (r : Request) → σ → r.Answer × σ) : Program α → σ → α × σ
  | done a, s => (a, s)
  | ask r next, s => (next (answer r s).1).runWith answer (answer r s).2

theorem bind_assoc {α β γ : Type} (p : Program α) (f : α → Program β) (g : β → Program γ) :
    (p.bind f).bind g = p.bind fun a => (f a).bind g := by
  induction p with
  | done a => rfl
  | ask r next ih => simp [bind, ih]

end Program
end BindingRelease
