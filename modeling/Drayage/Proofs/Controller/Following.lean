import Drayage.Proofs.Controller.Course
import Drayage.Proofs.Controller.Traffic

/-!
# Following a call

Traffic does not record what a call was answered, only what it still has to do. To say what
a call has seen, it is followed from its start: its own requests and their answers are told
apart from the turns of everybody else. Each answer belongs to a moment of the traffic, and
what was true then is known to have been true, whatever others did before and after.
-/

namespace Drayage

open Program Relation

namespace Program

variable {α : Type} {x y : Program α} {front back : List Reply}

/-- A program that was given these replies has come to this one. -/
inductive Leads : Program α → List Reply → Program α → Prop where
  | nil (x : Program α) : Leads x [] x
  | ask {r : Request} {next : r.Answer → Program α} {replies : List Reply} {y : Program α}
      (a : r.Answer) (rest : Leads (next a) replies y) : Leads (.ask r next) (⟨r, a⟩ :: replies) y

theorem Leads.concat {r : Request} {next : r.Answer → Program α}
    (h : Leads x front (.ask r next)) (a : r.Answer) : Leads x (front ++ [⟨r, a⟩]) (next a) := by
  generalize asks : Program.ask r next = y at h
  induction h with
  | nil x =>
    subst asks
    exact .ask a (.nil _)
  | ask a' rest ih => exact .ask a' (ih asks)

theorem Leads.course {e : α} (h : Leads x front y) (rest : y.Course back e) :
    x.Course (front ++ back) e := by
  induction h with
  | nil => exact rest
  | ask a _ ih => exact .ask a (ih rest)

/-- Whatever a program has come to, it can be brought to an end. -/
theorem exists_course (x : Program α) : ∃ replies e, x.Course replies e :=
  let broken : Engine (World Unit) := fun _ _ w => (.crashed .silent, w)
  ⟨_, _, course_run (World.perform broken) x default⟩

/-- The requests that are still to be made after the first few, in a world that answers
those. -/
def advance {σ : Type} (perform : (r : Request) → StateM σ r.Answer) :
    Nat → Program α → σ → Program α × σ
  | 0, x, w => (x, w)
  | _ + 1, .done a, w => (.done a, w)
  | n + 1, .ask r next, w =>
    let served := perform r w
    advance perform n (next served.1) served.2

end Program

namespace Traffic

variable {S : Surroundings} {o t : Traffic} {x : Program Ending} {replies : List Reply}

/-- A call that was started in `o` has been given these replies by the time of `t`, while
everybody else took turns. -/
inductive Follows (S : Surroundings) (o : Traffic) (x : Program Ending) :
    List Reply → Traffic → Prop where
  | started (turn : Turn S o ⟨o.world, o.calls ++ [.start x]⟩) :
      Follows S o x [] ⟨o.world, o.calls ++ [.start x]⟩
  | waits {replies : List Reply} {t u : Traffic} (h : Follows S o x replies t) (turn : Turn S t u)
      (same : u.calls[o.calls.length]? = t.calls[o.calls.length]?) : Follows S o x replies u
  | answered {replies : List Reply} {w w' : World Unit} {front back : List Call} {call : Call}
      {r : Request} {next : r.Answer → Program Ending} {a : r.Answer}
      (h : Follows S o x replies ⟨w, front ++ call :: back⟩)
      (own : front.length = o.calls.length) (asks : call.rest = .ask r next)
      (answers : w.Answers S.engine r a w') :
      Follows S o x (replies ++ [⟨r, a⟩]) ⟨w', front ++ call.resume w w' (next a) :: back⟩

theorem Follows.turns (h : Follows S o x replies t) : ReflTransGen (Turn S) o t := by
  induction h with
  | started turn => exact .single turn
  | waits _ turn _ ih => exact ih.tail turn
  | answered _ _ asks answers ih => exact ih.tail (.answer _ _ _ _ _ _ _ _ asks answers)

/-- What is left of the call is what its program has come to. -/
theorem Follows.leads (h : Follows S o x replies t) :
    ∃ call, t.calls[o.calls.length]? = some call ∧ x.Leads replies call.rest := by
  induction h with
  | started => exact ⟨.start x, List.getElem?_concat_length, .nil x⟩
  | waits _ _ same ih =>
    obtain ⟨call, there, leads⟩ := ih
    exact ⟨call, same.trans there, leads⟩
  | answered _ own asks _ ih =>
    obtain ⟨call, there, leads⟩ := ih
    rw [← own] at there ⊢
    rw [List.getElem?_append_right (Nat.le_refl _), Nat.sub_self, List.getElem?_cons_zero] at there
    cases there
    rw [asks] at leads
    rw [List.getElem?_append_right (Nat.le_refl _), Nat.sub_self, List.getElem?_cons_zero]
    exact ⟨_, rfl, leads.concat _⟩

/-- Between `o` and `t`, the turn from `u` to `u'` gave this reply. -/
structure Moment (S : Surroundings) (o u u' t : Traffic) (reply : Reply) : Prop where
  before : ReflTransGen (Turn S) o u
  answers : u.world.Answers S.engine reply.request reply.answer u'.world
  turn : Turn S u u'
  after : ReflTransGen (Turn S) u' t

/-- A reply was given at a moment, and those before it had been given by then. -/
theorem Follows.split {front back : List Reply} {reply : Reply}
    (h : Follows S o x (front ++ reply :: back) t) :
    ∃ u u', Follows S o x front u ∧ Moment S o u u' t reply := by
  generalize all : front ++ reply :: back = replies at h
  induction h generalizing back with
  | started => simp at all
  | waits _ turn _ ih =>
    obtain ⟨u, u', before, moment⟩ := ih all
    exact ⟨u, u', before, { moment with after := moment.after.tail turn }⟩
  | @answered replies w w' others others' call r next a h _ asks answers ih =>
    have turn := Turn.answer w w' others others' call r next a asks answers
    rcases List.eq_nil_or_concat back with rfl | ⟨back, last, rfl⟩
    -- it is the last reply
    · obtain ⟨rfl, same⟩ := List.append_inj' all rfl
      cases same
      exact ⟨_, _, h, h.turns, answers, turn, .refl⟩
    · rw [List.concat_eq_append] at all
      obtain ⟨u, u', before, moment⟩ := ih (Store.split_concat all.symm).1.symm
      exact ⟨u, u', before, { moment with after := moment.after.tail turn }⟩

theorem Follows.moment (h : Follows S o x replies t) {reply : Reply} (told : reply ∈ replies) :
    ∃ u u', Moment S o u u' t reply := by
  obtain ⟨front, back, rfl⟩ := List.append_of_mem told
  obtain ⟨u, u', _, moment⟩ := h.split
  exact ⟨u, u', moment⟩

end Traffic

end Drayage
