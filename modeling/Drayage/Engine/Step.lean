import Drayage.Resource.Promotion

/-!
# Steps

A step as an engine sees it: with a name under which its output is kept, its own or one
made from its position.
-/

namespace Drayage

structure Step where
  kind : String
  name : String
  guard : Option String
  continueOnError : Bool
  retry : Option RetryPolicy
  vars : List Variable
  config : Option Json
  deriving DecidableEq, Inhabited

namespace Step

/-- The name of a step that has none of its own. -/
def positionName (index : Nat) : String := s!"step-{index}"

def ofDeclared (index : Nat) (d : DeclaredStep) : Step where
  kind := d.uses
  name := (d.name.filter fun name => !name.isEmpty).getD (positionName index)
  guard := d.guard
  continueOnError := d.continueOnError
  retry := d.retry
  vars := d.vars
  config := d.config

def ofDeclaredFrom : (index : Nat) → List DeclaredStep → List Step
  | _, [] => []
  | index, d :: ds => ofDeclared index d :: ofDeclaredFrom (index + 1) ds

def ofDeclaredSteps (ds : List DeclaredStep) : List Step := ofDeclaredFrom 0 ds

/-- The time a step may take: what it says itself, or else the default of its runner.
Zero means as long as it likes. -/
def timeout (s : Step) (runnerDefault : Option Span) : Option Span :=
  ((s.retry.bind RetryPolicy.timeout).or runnerDefault).filter fun t => !t.isZero

def threshold (s : Step) : Nat := ((s.retry.map RetryPolicy.threshold).getD 1).toNat

/-- Whether a step is to run. Only the words `true` and `false` are understood; no words
mean that it is. -/
def evaluateGuard (guard : Option String) : Except String Bool :=
  match guard.map Text.trim with
  | none | some "" | some "true" => .ok true
  | some "false" => .ok false
  | some other => .error ("unsupported guard expression " ++ Text.quoted other)

@[simp] theorem length_ofDeclaredFrom (i : Nat) (ds : List DeclaredStep) :
    (ofDeclaredFrom i ds).length = ds.length := by
  induction ds generalizing i with
  | nil => rfl
  | cons d ds ih => simp [ofDeclaredFrom, ih]

@[simp] theorem length_ofDeclaredSteps (ds : List DeclaredStep) :
    (ofDeclaredSteps ds).length = ds.length := length_ofDeclaredFrom 0 ds

theorem getElem?_ofDeclaredFrom (i : Nat) (ds : List DeclaredStep) (j : Nat) :
    (ofDeclaredFrom i ds)[j]? = ds[j]?.map (ofDeclared (i + j)) := by
  induction ds generalizing i j with
  | nil => simp [ofDeclaredFrom]
  | cons d ds ih =>
    cases j with
    | zero => simp [ofDeclaredFrom]
    | succ j => simp [ofDeclaredFrom, ih, Nat.add_comm, Nat.add_left_comm]

end Step

end Drayage
