import Stencil.Context
import Stencil.Proofs.Fields

/-!
# What closures do to the scopes of a context

A closure that is run with one more scope may bind root names, push and pop scopes and run other
closures with one more scope (`Context.Action`). What this does to a stack of scopes is known from
the actions alone: they take some scopes off and put others on (`ScopeEffect`).

When the closure is done, one scope is taken off, whatever it is. So the scopes of the caller come
back for every context exactly if the closure leaves them alone and leaves one scope on them: the
one that was pushed for it, or another one instead (`Context.withScope_restores_iff`). A closure
that pushes a scope leaves the one that was pushed for it on the stack, and a closure that pops it
costs the caller a scope (`Context.withScope_unbalanced`).
-/

namespace Stencil

/-! ## Effects on a stack of scopes -/

/-- A change of a stack of scopes: how many are taken off, and which are put on then. -/
structure ScopeEffect where
  removed : Nat := 0
  /-- The new scopes, the innermost one first. -/
  added : List (Fields Value) := []

namespace ScopeEffect

/-- The stack after the change. There may be less scopes than are to be taken off. -/
def apply (e : ScopeEffect) (scopes : List (Fields Value)) : List (Fields Value) :=
  e.added ++ scopes.drop e.removed

/-- One change after another one. What the second one takes off is first of all what the first one
has put on. -/
def andThen (e f : ScopeEffect) : ScopeEffect where
  removed := e.removed + (f.removed - e.added.length)
  added := f.added ++ e.added.drop f.removed

theorem apply_andThen (e f : ScopeEffect) (scopes : List (Fields Value)) :
    (e.andThen f).apply scopes = f.apply (e.apply scopes) := by
  simp only [apply, andThen, List.drop_append, List.drop_drop, List.append_assoc]

/-- All scopes but one stay, and one is left on them. -/
def LeavesOne (e : ScopeEffect) : Prop := e.removed = e.added.length ∧ e.removed ≤ 1

instance (e : ScopeEffect) : Decidable e.LeavesOne := inferInstanceAs (Decidable (_ ∧ _))

/-- The scopes below one that is pushed before the change come back for every stack exactly if the
change leaves one scope on them. -/
theorem leavesOne_iff {e : ScopeEffect} :
    (∀ (bindings : Fields Value) (scopes : List (Fields Value)),
      (e.apply (bindings :: scopes)).tail = scopes) ↔ e.LeavesOne := by
  obtain ⟨removed, added⟩ := e
  constructor
  · intro h
    have hlength : removed = added.length := by
      have := congrArg List.length (h [] (List.replicate removed []))
      simp only [apply, List.length_tail, List.length_append, List.length_drop, List.length_cons,
        List.length_replicate] at this
      omega
    refine ⟨hlength, Nat.le_of_not_lt fun (hlt : 1 < removed) => ?_⟩
    -- what was put on last but one is there whatever the stack was before
    obtain ⟨a, b, more, rfl⟩ : ∃ a b more, added = a :: b :: more := by
      rw [hlength] at hlt
      match added, hlt with
      | a :: b :: more, _ => exact ⟨a, b, more, rfl⟩
    have hempty := h [] (List.replicate removed [])
    have hnull := h [] (List.replicate removed [("", .null)])
    obtain ⟨n, rfl⟩ : ∃ n, removed = n + 1 := ⟨removed - 1, by omega⟩
    have hb : b = [] := (List.cons.inj hempty).1
    have hb' : b = [("", .null)] := (List.cons.inj hnull).1
    cases hb.symm.trans hb'
  · rintro ⟨hlength, hle⟩ bindings scopes
    match removed, added, hlength, hle with
    | 0, [], _, _ => rfl
    | 1, [_], _, _ => rfl

end ScopeEffect

namespace Context

/-! ## Closures -/

/-- What a closure may do with the context that it is given. -/
inductive Action where
  | insert (name : String) (value : Value)
  | push (bindings : Fields Value)
  | pop
  /-- Runs a closure that does these actions with one more scope. -/
  | withScope (bindings : Fields Value) (actions : List Action)

mutual

/-- The context after an action. -/
def Action.run : Action → Context → Context
  | .insert name value, c => c.insert name value
  | .push bindings, c => c.push bindings
  | .pop, c => c.pop
  | .withScope bindings actions, c =>
    (c.withScope bindings fun c => ((), runAll actions c)).2

/-- The context after actions, in order. -/
def runAll : List Action → Context → Context
  | [], c => c
  | a :: actions, c => runAll actions (a.run c)

end

/-- The closure that does these actions and comes to `result`, be it a value or an error. -/
def closure {α : Type} (actions : List Action) (result : α) (c : Context) : α × Context :=
  (result, runAll actions c)

mutual

/-- What an action does to the scopes. -/
def Action.effect : Action → ScopeEffect
  | .insert _ _ => {}
  | .push bindings => { added := [bindings] }
  | .pop => { removed := 1 }
  | .withScope bindings actions =>
    .andThen { added := [bindings] } (.andThen (effects actions) { removed := 1 })

/-- What actions do to the scopes. -/
def effects : List Action → ScopeEffect
  | [] => {}
  | a :: actions => a.effect.andThen (effects actions)

end

mutual

/-- The root bindings that an action makes. -/
def Action.insertions : Action → List (String × Value)
  | .insert name value => [(name, value)]
  | .withScope _ actions => allInsertions actions
  | _ => []

/-- The root bindings that actions make, in order. -/
def allInsertions : List Action → List (String × Value)
  | [] => []
  | a :: actions => a.insertions ++ allInsertions actions

end

mutual

theorem Action.scopes_run (a : Action) (c : Context) :
    (a.run c).scopes = a.effect.apply c.scopes := by
  match a with
  | .insert name value => rfl
  | .push bindings => rfl
  | .pop => exact List.drop_one.symm
  | .withScope bindings actions =>
    have hrun := scopes_runAll actions (c.push bindings)
    rw [Action.run, withScope, Action.effect, ScopeEffect.apply_andThen, ScopeEffect.apply_andThen]
    show (runAll actions (c.push bindings)).scopes.tail = _
    rw [hrun]
    exact List.drop_one.symm

theorem scopes_runAll (actions : List Action) (c : Context) :
    (runAll actions c).scopes = (effects actions).apply c.scopes := by
  match actions with
  | [] => rfl
  | a :: actions =>
    rw [runAll, effects, ScopeEffect.apply_andThen, ← a.scopes_run c]
    exact scopes_runAll actions (a.run c)

end

mutual

theorem Action.root_run (a : Action) (c : Context) :
    (a.run c).root =
      a.insertions.foldl (fun root p => Fields.insert p.1 p.2 root) c.root := by
  match a with
  | .insert name value => rfl
  | .push bindings => rfl
  | .pop => rfl
  | .withScope bindings actions => exact root_runAll actions (c.push bindings)

theorem root_runAll (actions : List Action) (c : Context) :
    (runAll actions c).root =
      (allInsertions actions).foldl (fun root p => Fields.insert p.1 p.2 root) c.root := by
  match actions with
  | [] => rfl
  | a :: actions =>
    rw [runAll, root_runAll actions (a.run c), a.root_run c, allInsertions, List.foldl_append]

end

section

variable {α : Type} (actions : List Action) (result : α) (bindings : Fields Value) (c : Context)

theorem scopes_withScope :
    (c.withScope bindings (closure actions result)).2.scopes =
      ((effects actions).apply (bindings :: c.scopes)).tail :=
  congrArg List.tail (scopes_runAll actions (c.push bindings))

theorem root_withScope :
    (c.withScope bindings (closure actions result)).2.root =
      (allInsertions actions).foldl (fun root p => Fields.insert p.1 p.2 root) c.root :=
  root_runAll actions (c.push bindings)

end

/-! ## What closures leave -/

/-- A closure that is run with one more scope hands on its result, and of the root bindings only
those that it makes are others afterwards. The scopes are those that the closure leaves, without the
innermost one. They are the same as before for all contexts exactly if the closure leaves the scopes
of the caller as they are, and one scope on them. -/
theorem withScope_restores_iff (actions : List Action) :
    (∀ (result : Except Error Value) (bindings : Fields Value) (c : Context),
      let after := c.withScope bindings (closure actions result)
      after.1 = result ∧
      after.2.scopes = ((effects actions).apply (bindings :: c.scopes)).tail ∧
      ∀ name ∉ (allInsertions actions).map (·.1),
        Fields.get? name after.2.root = Fields.get? name c.root) ∧
    ((∀ (result : Except Error Value) (bindings : Fields Value) (c : Context),
      (c.withScope bindings (closure actions result)).2.scopes = c.scopes) ↔
        (effects actions).LeavesOne) := by
  refine ⟨fun result bindings c => ⟨rfl, scopes_withScope actions result bindings c, ?_⟩, ?_⟩
  · intro name hname
    rw [← List.mem_reverse, ← List.map_reverse] at hname
    rw [root_withScope, Fields.get?_foldl_insert, Fields.get?_eq_none_of_not_mem hname,
      Option.none_or]
  · rw [← ScopeEffect.leavesOne_iff]
    constructor
    · intro h bindings scopes
      exact (scopes_withScope actions _ bindings ⟨[], scopes⟩).symm.trans (h (.ok .null) _ _)
    · intro h result bindings c
      rw [scopes_withScope, h]

/-- A closure may push scopes of its own if it pops them again. -/
example : (effects [.push [("x", .null)], .withScope [] [.insert "y" .null], .pop]).LeavesOne := by
  decide

/-- A closure that pushes a scope leaves the scope on the stack that was pushed for it, whose names
have values from then on, and a closure that pops a scope takes one away from the caller. -/
theorem withScope_unbalanced :
    let pushing := closure [.push []] (.ok .null : Except Error Value)
    let popping := closure [.pop] (.ok .null : Except Error Value)
    let caller := empty.push [("y", .null)]
    (empty.withScope [("x", .int 1)] pushing).2.scopes ≠ empty.scopes ∧
      (empty.withScope [("x", .int 1)] pushing).2.lookup "x" = some (.int 1) ∧
      (caller.withScope [] popping).2.scopes ≠ caller.scopes ∧
      (caller.withScope [] popping).2.lookup "y" = none :=
  ⟨List.cons_ne_nil _ _, rfl, (List.cons_ne_nil _ _).symm, rfl⟩

end Context

end Stencil
