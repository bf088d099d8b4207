import Mcanbus.Rust.Checked

/-! # Programs that interact with an environment

A process reads and changes an environment and leaves a trace of events. It
returns a value, or it halts: with an error, with a panic, or because the
environment has no further answer for it. A loop is a body that is repeated
while it asks to continue; a measure that every continuing iteration lowers
makes the loop satisfy its unfolding equation.
-/

namespace Effect

open Rust

/-- Why a process stopped without a value. -/
inductive Halt (ε : Type)
  | failed (e : ε)
  | panicked (p : Panic)
  | pending
  deriving DecidableEq, Repr

inductive Outcome (ε α : Type)
  | done (a : α)
  | halted (h : Halt ε)
  deriving DecidableEq, Repr

/-- The result of running a process: its outcome, the environment left and the events. -/
structure Run (σ ε ω α : Type) where
  outcome : Outcome ε α
  state : σ
  trace : List ω

variable {σ ε ω α β γ : Type}

/-- The run with earlier events put before its trace. -/
def Run.after (t : List ω) (r : Run σ ε ω α) : Run σ ε ω α := { r with trace := t ++ r.trace }

@[simp] theorem Run.outcome_after (t : List ω) (r : Run σ ε ω α) :
    (r.after t).outcome = r.outcome := rfl

@[simp] theorem Run.state_after (t : List ω) (r : Run σ ε ω α) :
    (r.after t).state = r.state := rfl

@[simp] theorem Run.trace_after (t : List ω) (r : Run σ ε ω α) :
    (r.after t).trace = t ++ r.trace := rfl

@[simp] theorem Run.after_after (t u : List ω) (r : Run σ ε ω α) :
    (r.after u).after t = r.after (t ++ u) := by
  simp [Run.after]

def Process (σ ε ω α : Type) := σ → Run σ ε ω α

namespace Process

protected def pure (a : α) : Process σ ε ω α := fun s => ⟨.done a, s, []⟩

/-- Halt after the given events. -/
def halt (h : Halt ε) (t : List ω) : Process σ ε ω α := fun s => ⟨.halted h, s, t⟩

protected def bind (m : Process σ ε ω α) (f : α → Process σ ε ω β) : Process σ ε ω β := fun s =>
  match m s with
  | ⟨.done a, s', t⟩ => (f a s').after t
  | ⟨.halted h, s', t⟩ => ⟨.halted h, s', t⟩

instance : Monad (Process σ ε ω) where
  pure := Process.pure
  bind := Process.bind

/-- A checked operation, whose panic halts the process. -/
def ofChecked : Checked α → Process σ ε ω α
  | .ok a => pure a
  | .error p => halt (.panicked p) []

instance : MonadLift Checked (Process σ ε ω) := ⟨ofChecked⟩

variable {m : Process σ ε ω α} {f : α → Process σ ε ω β} {s s' : σ} {t : List ω} {a : α}
  {h : Halt ε}

@[simp] theorem pure_apply (a : α) (s : σ) :
    (pure a : Process σ ε ω α) s = ⟨.done a, s, []⟩ := rfl

@[simp] protected theorem pure_bind (a : α) (f : α → Process σ ε ω β) : (pure a >>= f) = f a := rfl

@[simp] theorem ofChecked_ok (a : α) : (ofChecked (.ok a) : Process σ ε ω α) = pure a := rfl

@[simp] theorem liftM_eq (c : Checked α) : (liftM c : Process σ ε ω α) = ofChecked c := rfl

theorem bind_done (hm : m s = ⟨.done a, s', t⟩) (f : α → Process σ ε ω β) :
    (m >>= f) s = (f a s').after t := by
  change Process.bind m f s = _
  rw [Process.bind, hm]

theorem bind_halted (hm : m s = ⟨.halted h, s', t⟩) (f : α → Process σ ε ω β) :
    (m >>= f) s = ⟨.halted h, s', t⟩ := by
  change Process.bind m f s = _
  rw [Process.bind, hm]

/-- The two ways a sequence of processes runs. -/
theorem bind_cases (m : Process σ ε ω α) (f : α → Process σ ε ω β) (s : σ) :
    (∃ a s' t, m s = ⟨.done a, s', t⟩ ∧ (m >>= f) s = (f a s').after t) ∨
    (∃ h s' t, m s = ⟨.halted h, s', t⟩ ∧ (m >>= f) s = ⟨.halted h, s', t⟩) := by
  rcases hm : m s with ⟨a | h, s', t⟩
  · exact .inl ⟨a, s', t, rfl, bind_done hm f⟩
  · exact .inr ⟨h, s', t, rfl, bind_halted hm f⟩

theorem bind_eq_done {b : β} (hb : (m >>= f) s = ⟨.done b, s', t⟩) :
    ∃ a r u v, m s = ⟨.done a, r, u⟩ ∧ f a r = ⟨.done b, s', v⟩ ∧ t = u ++ v := by
  obtain ⟨a, r, u, hm, hf⟩ | ⟨h, r, u, hm, hf⟩ := bind_cases m f s
  · rcases hfa : f a r with ⟨o, r', v⟩
    rw [hf, hfa] at hb
    obtain ⟨rfl, rfl, rfl⟩ := Run.mk.inj hb
    exact ⟨a, r, u, v, hm, hfa, rfl⟩
  · rw [hf] at hb
    cases hb

/-- Where the first processes differ by earlier events only, so do the sequences. -/
theorem bind_after {m' : Process σ ε ω α} (hm : m s = (m' s').after t)
    (f : α → Process σ ε ω β) : (m >>= f) s = ((m' >>= f) s').after t := by
  obtain ⟨a, r, u, he, hf⟩ | ⟨h, r, u, he, hf⟩ := bind_cases m' f s' <;> rw [he] at hm <;> rw [hf]
  · rw [bind_done hm, Run.after_after]
  · rw [bind_halted hm]
    rfl

protected theorem bind_assoc (m : Process σ ε ω α) (f : α → Process σ ε ω β)
    (g : β → Process σ ε ω γ) : m >>= f >>= g = m >>= fun a => f a >>= g := by
  funext s
  rcases hm : m s with ⟨a | h, r, u⟩
  · rw [bind_done hm]
    rcases hf : f a r with ⟨b | h, r', v⟩
    · have hmf : (m >>= f) s = ⟨.done b, r', u ++ v⟩ := by
        rw [bind_done hm, hf]
        rfl
      rw [bind_done hmf, bind_done hf, Run.after_after]
    · have hmf : (m >>= f) s = ⟨.halted h, r', u ++ v⟩ := by
        rw [bind_done hm, hf]
        rfl
      rw [bind_halted hmf, bind_halted hf]
      rfl
  · rw [bind_halted hm, bind_halted (bind_halted hm f)]

theorem ofChecked_eq_done {c : Checked α}
    (hc : (ofChecked c : Process σ ε ω α) s = ⟨.done a, s', t⟩) : c = .ok a ∧ s' = s ∧ t = [] := by
  cases c with
  | ok b =>
    rw [ofChecked_ok, pure_apply] at hc
    cases hc
    exact ⟨rfl, rfl, rfl⟩
  | error p => cases hc

/-! ### Loops -/

/-- Repeat the body while it asks to continue, at most the given number of times. -/
def loopFuel (body : β → Process σ ε ω (β ⊕ α)) : ℕ → β → Process σ ε ω α
  | 0, _ => halt .pending []
  | n + 1, b => do
    match ← body b with
    | .inl b' => loopFuel body n b'
    | .inr a => pure a

/-- Repeat the body while it asks to continue; `μ` bounds the iterations left. -/
def loop (μ : β → σ → ℕ) (body : β → Process σ ε ω (β ⊕ α)) (b : β) : Process σ ε ω α :=
  fun s => loopFuel body (μ b s + 1) b s

/-- Every continuing iteration lowers the measure. -/
def Descends (μ : β → σ → ℕ) (body : β → Process σ ε ω (β ⊕ α)) : Prop :=
  ∀ b s b' s' t, body b s = ⟨.done (.inl b'), s', t⟩ → μ b' s' < μ b s

variable {μ : β → σ → ℕ} {body : β → Process σ ε ω (β ⊕ α)}

/-- Past the measure, further fuel changes nothing. -/
theorem loopFuel_congr (hμ : Descends μ body) {n k : ℕ} {b : β} {s : σ} (hn : μ b s < n)
    (hk : μ b s < k) : loopFuel body n b s = loopFuel body k b s := by
  induction n generalizing k b s with
  | zero => omega
  | succ n ih =>
    obtain ⟨k, rfl⟩ : ∃ l, k = l + 1 := ⟨k - 1, by omega⟩
    rw [loopFuel, loopFuel]
    rcases hb : body b s with ⟨(b' | a) | h, s', t⟩
    · have hd := hμ b s b' s' t hb
      rw [bind_done hb, bind_done hb]
      simp only []
      rw [ih (k := k) (by omega) (by omega)]
    · rw [bind_done hb, bind_done hb]
    · rw [bind_halted hb, bind_halted hb]

/-- A loop with a measure runs its body and continues as the body asks. -/
theorem loop_eq (hμ : Descends μ body) (b : β) :
    loop μ body b = (do
      match ← body b with
      | .inl b' => loop μ body b'
      | .inr a => pure a) := by
  funext s
  unfold loop loopFuel
  rcases hb : body b s with ⟨(b' | a) | h, s', t⟩
  · have hd := hμ b s b' s' t hb
    rw [bind_done hb, bind_done hb]
    exact congrArg _ (loopFuel_congr hμ (by omega) (Nat.lt_succ_self _))
  · rw [bind_done hb, bind_done hb]
  · rw [bind_halted hb, bind_halted hb]

theorem loop_continue (hμ : Descends μ body) {b b' : β} (hb : body b s = ⟨.done (.inl b'), s', t⟩) :
    loop μ body b s = (loop μ body b' s').after t := by
  rw [loop_eq hμ, bind_done hb]

theorem loop_exit (hμ : Descends μ body) {b : β} (hb : body b s = ⟨.done (.inr a), s', t⟩) :
    loop μ body b s = ⟨.done a, s', t⟩ := by
  rw [loop_eq hμ, bind_done hb]
  simp [Run.after]

theorem loop_halted (hμ : Descends μ body) {b : β} (hb : body b s = ⟨.halted h, s', t⟩) :
    loop μ body b s = ⟨.halted h, s', t⟩ := by
  rw [loop_eq hμ, bind_halted hb]

/-- What holds at the head of a loop and is kept by its body, and what the last iteration of a
loop that returns a value adds. -/
theorem loop_eq_done {J : β → σ → List ω → Prop} {Q : α → σ → List ω → Prop}
    (hbody : ∀ b s t r s' u, J b s t → body b s = ⟨.done r, s', u⟩ → match r with
      | .inl b' => J b' s' (t ++ u)
      | .inr a => Q a s' (t ++ u))
    {b : β} (h₀ : J b s []) (h : loop μ body b s = ⟨.done a, s', t⟩) : Q a s' t := by
  have key : ∀ n b s t u, J b s t → loopFuel body n b s = ⟨.done a, s', u⟩ → Q a s' (t ++ u) := by
    intro n
    induction n with
    | zero => exact fun _ _ _ _ _ hr => nomatch hr
    | succ n ih =>
      intro b s t u hj hr
      obtain ⟨r, s₁, u₁, v, hb, hr, rfl⟩ := bind_eq_done hr
      have hk := hbody b s t r s₁ u₁ hj hb
      rcases r with b' | a'
      · rw [← List.append_assoc]
        exact ih b' s₁ (t ++ u₁) v hk hr
      · cases hr
        rwa [List.append_nil]
  exact key _ b s [] t h₀ h

end Process

end Effect
