import Mcanbus.Transition.Basic

/-! # Two machines joined by queues

Steps that are deterministic and independent of each other can be taken in any
order: every run goes on to the one end, which all complete runs reach after the
same number of steps. Two machines that react to the messages of each other over
first-in-first-out queues take such steps.
-/

namespace Transition

variable {σ α : Type*} {step : σ → α → σ → Prop}

/-- A label determines the step. -/
def Deterministic (step : σ → α → σ → Prop) : Prop :=
  ∀ s a t u, step s a t → step s a u → t = u

/-- Steps with different labels can be taken in either order. -/
def Independent (step : σ → α → σ → Prop) : Prop :=
  ∀ s a b t u, a ≠ b → step s a t → step s b u → ∃ v, step t b v ∧ step u a v

section Confluence

variable (hd : Deterministic step) (hi : Independent step) {s t u : σ} {as bs : List α} {b : α}

include hd hi

/-- A step of a complete run may be taken first. -/
theorem Runs.strip (h : Runs step s as t) (ht : Terminal step t) (hb : step s b u) :
    ∃ cs, Runs step u cs t ∧ cs.length + 1 = as.length := by
  induction h generalizing u with
  | nil => exact absurd hb (ht b u)
  | @cons s s₁ t a as ha hr ih =>
    by_cases hab : a = b
    · subst hab
      obtain rfl := hd s a _ _ ha hb
      exact ⟨as, hr, rfl⟩
    · obtain ⟨v, h₁, hu⟩ := hi s a b _ _ hab ha hb
      obtain ⟨cs, hcs, hl⟩ := ih ht h₁
      exact ⟨a :: cs, .cons hu hcs, by rw [List.length_cons, List.length_cons, hl]⟩

/-- Every run goes on to the end of a complete run, which takes the same number of steps. -/
theorem Runs.extends (h : Runs step s as t) (ht : Terminal step t) (hb : Runs step s bs u) :
    ∃ cs, Runs step u cs t ∧ bs.length + cs.length = as.length := by
  induction hb generalizing as with
  | nil => exact ⟨as, h, Nat.zero_add _⟩
  | cons hstep _ ih =>
    obtain ⟨cs, hcs, hl⟩ := h.strip hd hi ht hstep
    obtain ⟨ds, hds, hl'⟩ := ih hcs
    refine ⟨ds, hds, ?_⟩
    rw [List.length_cons]
    omega

end Confluence

/-! ### Machines -/

/-- A machine takes a message, changes its state and sends messages in order. -/
abbrev Machine (σ α β : Type*) := σ → α → σ × List β

namespace Machine

variable {α β : Type*} (m : Machine σ α β)

/-- The state after some messages. -/
def after (s : σ) (as : List α) : σ := as.foldl (fun s a => (m s a).1) s

/-- What is sent in answer to some messages. -/
def sends : σ → List α → List β
  | _, [] => []
  | s, a :: as => (m s a).2 ++ sends (m s a).1 as

variable {m} {s : σ} {as bs : List α} {a : α}

@[simp] theorem after_nil : m.after s [] = s := rfl

@[simp] theorem after_cons : m.after s (a :: as) = m.after (m s a).1 as := rfl

@[simp] theorem sends_nil : m.sends s [] = [] := rfl

@[simp] theorem sends_cons : m.sends s (a :: as) = (m s a).2 ++ m.sends (m s a).1 as := rfl

theorem after_append : m.after s (as ++ bs) = m.after (m.after s as) bs := List.foldl_append

theorem sends_append : m.sends s (as ++ bs) = m.sends s as ++ m.sends (m.after s as) bs := by
  induction as generalizing s with
  | nil => rfl
  | cons a as ih => rw [List.cons_append, sends_cons, ih, sends_cons, after_cons, List.append_assoc]

end Machine

/-- The states of two machines and the messages under way to each of them. -/
structure Network (σ τ α β : Type*) where
  left : σ
  right : τ
  toLeft : List α
  toRight : List β

inductive Delivery
  | left
  | right
  deriving DecidableEq

namespace Network

variable {τ β : Type*} (m : Machine σ α β) (n : Machine τ β α)

/-- A machine takes the next message. -/
inductive Step : Network σ τ α β → Delivery → Network σ τ α β → Prop
  | left {s : Network σ τ α β} {a : α} {rest : List α} : s.toLeft = a :: rest →
      Step s .left ⟨(m s.left a).1, s.right, rest, s.toRight ++ (m s.left a).2⟩
  | right {s : Network σ τ α β} {b : β} {rest : List β} : s.toRight = b :: rest →
      Step s .right ⟨s.left, (n s.right b).1, s.toLeft ++ (n s.right b).2, rest⟩

theorem deterministic : Deterministic (Step m n) := by
  intro s a t u ht hu
  cases ht with
  | left ht =>
    cases hu with
    | left hu =>
      obtain ⟨rfl, rfl⟩ := List.cons.inj (ht.symm.trans hu)
      rfl
  | right ht =>
    cases hu with
    | right hu =>
      obtain ⟨rfl, rfl⟩ := List.cons.inj (ht.symm.trans hu)
      rfl

theorem independent : Independent (Step m n) := by
  have key : ∀ s t u : Network σ τ α β, Step m n s .left t → Step m n s .right u →
      ∃ v, Step m n t .right v ∧ Step m n u .left v := by
    intro s t u ht hu
    cases ht with
    | left ha =>
      cases hu with
      | right hb =>
        refine ⟨_, .right ?_, .left ?_⟩
        · rw [hb, List.cons_append]
        · rw [ha, List.cons_append]
  intro s a b t u hab ht hu
  cases a <;> cases b
  · exact absurd rfl hab
  · exact key s t u ht hu
  · obtain ⟨v, hv, hv'⟩ := key s u t hu ht
    exact ⟨v, hv', hv⟩
  · exact absurd rfl hab

variable {m n} {s : Network σ τ α β}

/-- Nothing is under way. -/
theorem terminal_iff : Terminal (Step m n) s ↔ s.toLeft = [] ∧ s.toRight = [] := by
  constructor
  · intro h
    constructor
    · cases hl : s.toLeft with
      | nil => rfl
      | cons a rest => exact absurd (Step.left hl) (h _ _)
    · cases hr : s.toRight with
      | nil => rfl
      | cons b rest => exact absurd (Step.right hr) (h _ _)
  · rintro ⟨hl, hr⟩ a t (⟨h⟩ | ⟨h⟩)
    · rw [hl] at h
      cases h
    · rw [hr] at h
      cases h

/-- The left machine takes the messages that are under way to it. -/
theorem runs_left (l : σ) (r : τ) (as : List α) (out : List β) :
    Runs (Step m n) ⟨l, r, as, out⟩ (List.replicate as.length .left)
      ⟨m.after l as, r, [], out ++ m.sends l as⟩ := by
  induction as generalizing l out with
  | nil =>
    rw [Machine.sends_nil, List.append_nil]
    exact .nil _
  | cons a as ih =>
    rw [Machine.sends_cons, ← List.append_assoc]
    exact .cons (.left rfl) (ih _ _)

/-- The right machine takes the messages that are under way to it. -/
theorem runs_right (l : σ) (r : τ) (out : List α) (bs : List β) :
    Runs (Step m n) ⟨l, r, out, bs⟩ (List.replicate bs.length .right)
      ⟨l, n.after r bs, out ++ n.sends r bs, []⟩ := by
  induction bs generalizing r out with
  | nil =>
    rw [Machine.sends_nil, List.append_nil]
    exact .nil _
  | cons b bs ih =>
    rw [Machine.sends_cons, ← List.append_assoc]
    exact .cons (.right rfl) (ih _ _)

end Network

end Transition
