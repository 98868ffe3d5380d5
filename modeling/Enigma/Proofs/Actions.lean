import Enigma.Assembly.Generate
import Enigma.Program.Binding

/-!
# Proofs/Actions — a program as a sequence of actions on its variables

Run once from top to bottom, with every body run once and no condition asked, a program does a plain
sequence of things: it declares a variable with a value, reserves a parameter, assigns, or counts a
variable up or down.  `Program.actions` is that sequence.  The order is the one in which code is
generated, so an `iterate` counts behind its body.

* `Program.declared`, `Program.sums`, `Program.labels` — what a program asks of memory and of the
  label counter;
* `Stmt.Controlled` — loops are left and resumed only inside of one;
* `Stmt.matches`, `block_matches` — the actions declare and use what the bindings do, and declare it
  in the same order.
-/

namespace Enigma

/-- One thing done to a variable. -/
inductive Action
  | declare (declaration : Declaration)
  | reserve (param : Param)
  | assign (name : String) (value : Expr)
  | count (step : Step)

/-- The number of additions in an expression. -/
def Expr.sums : Expr → Nat
  | .literal _ _ => 0
  | .ident _ => 0
  | .binary left operator right => left.sums + right.sums + if operator = "+" then 1 else 0
  | .group inner => inner.sums

namespace Action

/-- The variable that is new, and its data type as it is written. -/
def head? : Action → Option (String × String)
  | declare d => some (d.name, d.dataType)
  | reserve p => some (p.name, p.dataType)
  | assign _ _ => none
  | count _ => none

/-- The variables that must be known. -/
def uses : Action → List String
  | declare d => d.value.reads
  | reserve _ => []
  | assign name value => name :: value.reads
  | count step => [step.name]

/-- The variable that is written from an expression, and the expression. -/
def target? : Action → Option (String × Expr)
  | declare d => some (d.name, d.value)
  | reserve _ => none
  | assign name value => some (name, value)
  | count _ => none

/-- The number of additions in the value that is computed. -/
def sums (a : Action) : Nat := (a.target?.map fun target => target.2.sums).getD 0

end Action

mutual

/-- What a statement does, run once. -/
def Stmt.actions : Stmt → List Action
  | .declare d => [.declare d]
  | .assign name value _ => [.assign name value]
  | .conditional branches => branchesActions branches
  | .iterate init _ step body _ => .declare init :: (blockActions body ++ [.count step])
  | .whilst _ body _ => blockActions body
  | .function _ params body => params.map .reserve ++ blockActions body
  | .leave _ => []
  | .resume _ => []

/-- What an arm does, run once. -/
def Branch.actions : Branch → List Action
  | .mk _ _ body _ => blockActions body

/-- What statements in a row do. -/
def blockActions : List Stmt → List Action
  | [] => []
  | s :: rest => s.actions ++ blockActions rest

/-- What arms in a row do: each is run. -/
def branchesActions : List Branch → List Action
  | [] => []
  | b :: rest => b.actions ++ branchesActions rest

end

mutual

/-- The number of labels a statement needs. -/
def Stmt.labels : Stmt → Nat
  | .conditional branches => branchesLabels branches
  | .iterate _ _ _ body _ => 3 + blockLabels body
  | .whilst _ body _ => 2 + blockLabels body
  | .function _ _ body => blockLabels body
  | .declare _ | .assign _ _ _ | .leave _ | .resume _ => 0

/-- The number of labels an arm needs. -/
def Branch.labels : Branch → Nat
  | .mk _ _ body _ => blockLabels body

/-- The number of labels statements in a row need. -/
def blockLabels : List Stmt → Nat
  | [] => 0
  | s :: rest => s.labels + blockLabels rest

/-- The number of labels arms in a row need. -/
def branchesLabels : List Branch → Nat
  | [] => 0
  | b :: rest => b.labels + branchesLabels rest

end

mutual

/-- Whether loops are left and resumed only inside of one; `loop` says that there is one around the
statement.  A function's body is still inside the loops around the function. -/
def Stmt.Controlled (loop : Bool) : Stmt → Prop
  | .conditional branches => branchesControlled loop branches
  | .iterate _ _ _ body _ => blockControlled true body
  | .whilst _ body _ => blockControlled true body
  | .function _ _ body => blockControlled loop body
  | .leave _ | .resume _ => loop = true
  | .declare _ | .assign _ _ _ => True

/-- The same for an arm. -/
def Branch.Controlled (loop : Bool) : Branch → Prop
  | .mk _ _ body _ => blockControlled loop body

/-- The same for statements in a row. -/
def blockControlled (loop : Bool) : List Stmt → Prop
  | [] => True
  | s :: rest => s.Controlled loop ∧ blockControlled loop rest

/-- The same for arms in a row. -/
def branchesControlled (loop : Bool) : List Branch → Prop
  | [] => True
  | b :: rest => b.Controlled loop ∧ branchesControlled loop rest

end

/-- The variables that actions declare, in order. -/
def declaredBy (actions : List Action) : List String :=
  (actions.filterMap Action.head?).map Prod.fst

/-- The number of additions that actions make. -/
def sumsOf : List Action → Nat
  | [] => 0
  | a :: as => a.sums + sumsOf as

namespace Program

/-- What a program does, run once. -/
def actions (p : Program) : List Action := blockActions p

/-- The variables a program declares, parameters and the variables of `iterate` among them. -/
def declared (p : Program) : List String := declaredBy (actions p)

/-- The number of additions in the values a program declares or assigns. -/
def sums (p : Program) : Nat := sumsOf (actions p)

/-- The number of labels a program needs: two for a `whilst` and three for an `iterate`. -/
def labels (p : Program) : Nat := blockLabels p

end Program

@[simp] theorem declaredBy_append (as bs : List Action) :
    declaredBy (as ++ bs) = declaredBy as ++ declaredBy bs := by
  simp [declaredBy]

@[simp] theorem sumsOf_append (as bs : List Action) :
    sumsOf (as ++ bs) = sumsOf as + sumsOf bs := by
  induction as with
  | nil => exact (Nat.zero_add _).symm
  | cons a as ih => rw [List.cons_append, sumsOf, sumsOf, ih, Nat.add_assoc]

/-! ## Actions and bindings -/

namespace Binding

/-- The variable that a binding declares, and its data type as it is written. -/
def head? : Binding → Option (String × String)
  | declare dataType name _ _ => some (name, dataType)
  | assign _ _ _ => none
  | read _ _ => none

/-- The variable that a binding uses. -/
def used? : Binding → Option String
  | declare _ _ _ _ => none
  | assign name _ _ => some name
  | read name _ => some name

end Binding

/-- An expression declares nothing. -/
theorem Expr.filterMap_head?_bindings (e : Expr) (line : Nat) :
    (e.bindings line).filterMap Binding.head? = [] := by
  simp [Expr.bindings, Binding.head?, Function.comp_def]

/-- An expression uses what it reads, in order. -/
theorem Expr.filterMap_used?_bindings (e : Expr) (line : Nat) :
    (e.bindings line).filterMap Binding.used? = e.reads := by
  simp [Expr.bindings, Binding.used?, Function.comp_def]

/-- Actions that declare what bindings declare, in the same order, and use only what they use. -/
structure Matches (as : List Action) (bs : List Binding) : Prop where
  heads : as.filterMap Action.head? = bs.filterMap Binding.head?
  uses : as.flatMap Action.uses ⊆ bs.filterMap Binding.used?

namespace Matches

/-- Actions declare the variables that their bindings declare. -/
theorem declared {as : List Action} {bs : List Binding} (h : Matches as bs) :
    declaredBy as = (bs.filterMap Binding.head?).map Prod.fst :=
  congrArg (List.map Prod.fst) h.heads

theorem nil (bs : List Binding) (h : bs.filterMap Binding.head? = []) : Matches [] bs :=
  ⟨by rw [h]; rfl, by simp⟩

/-- **Actions match bindings part by part.** -/
theorem append {as as' : List Action} {bs bs' : List Binding} (h : Matches as bs)
    (h' : Matches as' bs') : Matches (as ++ as') (bs ++ bs') := by
  refine ⟨by rw [List.filterMap_append, h.heads, h'.heads, List.filterMap_append], ?_⟩
  rw [List.flatMap_append, List.filterMap_append]
  exact List.append_subset.2 ⟨List.subset_append_of_subset_left _ h.uses,
    List.subset_append_of_subset_right _ h'.uses⟩

/-- Bindings that declare nothing may stand in front. -/
theorem after {as : List Action} {bs : List Binding} (h : Matches as bs) (cs : List Binding)
    (hc : cs.filterMap Binding.head? = []) : Matches as (cs ++ bs) :=
  append (nil cs hc) h

/-- A declaration matches the bindings of its value and of its variable. -/
theorem declare (d : Declaration) : Matches [.declare d] d.bindings := by
  constructor
  · simp [Action.head?, Declaration.bindings, Expr.filterMap_head?_bindings, Binding.head?]
  · simp [Action.uses, Declaration.bindings, Expr.filterMap_used?_bindings]

theorem assign (name : String) (value : Expr) (line : Nat) :
    Matches [.assign name value] (value.bindings line ++ [.assign name (some value) line]) := by
  constructor
  · rw [List.filterMap_append, value.filterMap_head?_bindings]
    rfl
  · simp [Action.uses, Expr.filterMap_used?_bindings, Binding.used?]

/-- Parameters are declared, and nothing is computed for them. -/
theorem reserve (params : List Param) :
    Matches (params.map .reserve) (params.map Param.binding) := by
  constructor
  · simp [Action.head?, Param.binding, Binding.head?, List.filterMap_map, Function.comp_def]
  · have hnone : (params.map Action.reserve).flatMap Action.uses = [] := by
      simp [Action.uses]
    rw [hnone]
    exact List.nil_subset _

/-- The step of an `iterate` counts behind the body, and is bound in front of it. -/
theorem iterate (init : Declaration) (condition : Expr) (step : Step) (line : Nat)
    {as : List Action} {bs : List Binding} (h : Matches as bs) :
    Matches (.declare init :: (as ++ [.count step]))
      (init.bindings ++ condition.bindings line ++ step.bindings ++ bs) := by
  have hinit := declare init
  constructor
  · have hcount : [Action.count step].filterMap Action.head? = [] := rfl
    have hstep : step.bindings.filterMap Binding.head? = [] := rfl
    rw [← List.singleton_append, List.filterMap_append, List.filterMap_append, hcount,
      List.filterMap_append, List.filterMap_append, List.filterMap_append, ← hinit.heads, ← h.heads,
      hstep, condition.filterMap_head?_bindings]
    simp
  · have huses := h.uses
    have hinit := hinit.uses
    simp only [List.flatMap_cons, List.flatMap_append, List.flatMap_nil, List.append_nil,
      List.filterMap_append, List.append_subset, Action.uses] at hinit huses ⊢
    refine ⟨?_, ?_, ?_⟩
    · exact fun x hx => by simp [hinit hx]
    · exact fun x hx => by simp [huses hx]
    · simp [Step.bindings, Binding.used?]

end Matches

mutual

/-- **Actions and bindings agree**, for a statement. -/
theorem Stmt.matches : ∀ s : Stmt, Matches s.actions s.bindings
  | .declare d => .declare d
  | .assign name value line => .assign name value line
  | .conditional branches => branches_matches branches
  | .iterate init condition step body line => .iterate init condition step line (block_matches body)
  | .whilst condition body line =>
    (block_matches body).after _ (condition.filterMap_head?_bindings line)
  | .function _ params body => .append (.reserve params) (block_matches body)
  | .leave _ => .nil [] rfl
  | .resume _ => .nil [] rfl

/-- An arm matches with its condition, which no action reads. -/
theorem Branch.matches : ∀ b : Branch, Matches b.actions b.bindings
  | .mk _ (some condition) body line =>
    (block_matches body).after _ (condition.filterMap_head?_bindings line)
  | .mk _ none body _ => block_matches body

/-- **Actions and bindings agree**, for statements in a row. -/
theorem block_matches : ∀ body : List Stmt, Matches (blockActions body) (blockBindings body)
  | [] => .nil [] rfl
  | s :: rest => s.matches.append (block_matches rest)

/-- Arms in a row match one after the other. -/
theorem branches_matches :
    ∀ branches : List Branch, Matches (branchesActions branches) (branchesBindings branches)
  | [] => .nil [] rfl
  | b :: rest => b.matches.append (branches_matches rest)

end

end Enigma
