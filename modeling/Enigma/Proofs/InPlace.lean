/-!
# Proofs/InPlace — work that changes a state in place

A function from a state to an error or to another state takes back whatever it did if it fails:
there is no state left to look at.  Work **in place** has one state throughout.  An error ends it,
and what was changed until then stays changed, so that it means something to say that a failure
changes nothing.

* `InPlace.look`, `InPlace.check` — ask the state, or something else, and perhaps stop;
* `InPlace.change` — change the state.
-/

namespace Enigma

/-- Work on a state in place: an error ends it, and what was changed until then stays. -/
abbrev InPlace (ε σ : Type) := ExceptT ε (StateM σ)

namespace InPlace

variable {ε σ α β : Type}

/-- Looks at the state, and may stop there. -/
def look (f : σ → Except ε α) : InPlace ε σ α := fun s => (f s, s)

/-- Looks at something that does not depend on the state. -/
def check (x : Except ε α) : InPlace ε σ α := look fun _ => x

/-- Changes the state. -/
def change (f : σ → σ) : InPlace ε σ Unit := fun s => (.ok (), f s)

/-- **A look leaves the state alone**: what follows starts from the same one, or the work stops
there. -/
theorem look_bind (f : σ → Except ε α) (work : α → InPlace ε σ β) (s : σ) :
    (look f >>= work) s = match f s with
      | .ok a => work a s
      | .error e => (.error e, s) := by
  change (ExceptT.bindCont work (f s)) s = _
  cases f s <;> rfl

/-- Mapping a result leaves the state alone, failed or not. -/
theorem map_apply (f : α → β) (work : InPlace ε σ α) (s : σ) :
    (f <$> work) s = ((work s).1.map f, (work s).2) := by
  change (match (work s).1 with
    | .ok a => (pure (.ok (f a)) : StateM σ (Except ε β))
    | .error e => pure (.error e)) (work s).2 = _
  cases (work s).1 <;> rfl

end InPlace

end Enigma
