import Mcanbus.Effect.Trace

/-! # Bounds on the effects of a process

A bound says which events a process may emit and which errors it may fail with.
A guarded process fails with some of its errors only before its first event, as
a process that checks its arguments before it acts.
-/

namespace Effect.Process

open Rust

variable {σ τ ε ε' ω ω' α β : Type}

/-! ### Processes from errors, panics and parts of the state -/

/-- A value, or the error that fails the process. -/
def ofExcept : Except ε α → Process σ ε ω α
  | .ok a => pure a
  | .error e => halt (.failed e) []

/-- A value read from the state. -/
def gets (g : σ → α) : Process σ ε ω α := fun s => ⟨.done (g s), s, []⟩

/-- Run a process whose panic becomes an error. -/
def catchPanic (f : σ → Panic → ε) (m : Process σ ε ω α) : Process σ ε ω α := fun s =>
  match m s with
  | ⟨.halted (.panicked p), s', t⟩ => ⟨.halted (.failed (f s' p)), s', t⟩
  | r => r

/-- Run a process on a part of the state; its error becomes a value. -/
def onPart (get : τ → σ) (set : σ → τ → τ) (event : ω → ω') (m : Process σ ε ω α) :
    Process τ ε' ω' (Except ε α) := fun s =>
  match m (get s) with
  | ⟨.done a, s', t⟩ => ⟨.done (.ok a), set s' s, t.map event⟩
  | ⟨.halted (.failed e), s', t⟩ => ⟨.done (.error e), set s' s, t.map event⟩
  | ⟨.halted (.panicked p), s', t⟩ => ⟨.halted (.panicked p), set s' s, t.map event⟩
  | ⟨.halted .pending, s', t⟩ => ⟨.halted .pending, set s' s, t.map event⟩

variable {P : ω → Prop} {E I : ε → Prop} {m : Process σ ε ω α} {f : α → Process σ ε ω β}

/-! ### Values -/

/-- Every value that the process returns has the property. -/
def Returns (m : Process σ ε ω α) (R : α → Prop) : Prop := ∀ s a, (m s).outcome = .done a → R a

namespace Returns

variable {R : α → Prop} {S : β → Prop}

theorem pure {a : α} (h : R a) : Returns (Pure.pure a : Process σ ε ω α) R := by
  rintro s a' he
  cases he
  exact h

theorem halt {h : Halt ε} {t : List ω} : Returns (Process.halt h t : Process σ ε ω α) R :=
  fun _ _ he => nomatch he

theorem bind (hm : Returns m R) (hf : ∀ a, R a → Returns (f a) S) : Returns (m >>= f) S := by
  intro s b hb
  obtain ⟨a, s', t, he, hr⟩ | ⟨h, s', t, he, hr⟩ := bind_cases m f s <;> rw [hr] at hb
  · exact hf a (hm s a (by rw [he])) s' b hb
  · cases hb

end Returns

/-! ### Bounds -/

/-- Every event of every run is in the first set, and every error in the second. -/
def Within (P : ω → Prop) (E : ε → Prop) (m : Process σ ε ω α) : Prop :=
  Traces m fun o t => (∀ e ∈ t, P e) ∧ ∀ err, o = .halted (.failed err) → E err

namespace Within

theorem pure (a : α) : Within P E (Pure.pure a : Process σ ε ω α) :=
  Traces.pure ⟨nofun, nofun⟩

theorem fail {e : ε} (h : E e) : Within P E (halt (.failed e) [] : Process σ ε ω α) := by
  apply Traces.halt
  constructor
  · exact nofun
  · rintro err he
    cases he
    exact h

theorem gets (g : σ → α) : Within P E (Process.gets g : Process σ ε ω α) :=
  fun _ => ⟨nofun, nofun⟩

theorem ofChecked (c : Checked α) : Within P E (Process.ofChecked c : Process σ ε ω α) :=
  Traces.ofChecked (fun _ _ => ⟨nofun, nofun⟩) fun _ => ⟨nofun, nofun⟩

theorem trivial (m : Process σ ε ω α) : Within (fun _ => True) (fun _ => True) m :=
  fun _ => ⟨fun _ _ => True.intro, fun _ _ => True.intro⟩

theorem bind (hm : Within P E m) (hf : ∀ a, Within P E (f a)) : Within P E (m >>= f) := by
  refine Traces.bind hm ?_ ?_
  · intro a t ht
    refine Traces.mono (hf a) ?_
    rintro o u ⟨hu, ho⟩
    exact ⟨fun e he => (List.mem_append.mp he).elim (ht.1 e) (hu e), ho⟩
  · rintro h t ⟨ht, hh⟩
    refine ⟨ht, fun err he => hh err ?_⟩
    cases he
    rfl

/-- What follows may use what is known of the value. -/
theorem bind_returns {R : α → Prop} (hm : Within P E m) (hR : Returns m R)
    (hf : ∀ a, R a → Within P E (f a)) : Within P E (m >>= f) := by
  intro s
  have hs := hm s
  have hr := hR s
  obtain ⟨a, s', t, he, hb⟩ | ⟨h, s', t, he, hb⟩ := bind_cases m f s <;>
    rw [he] at hs hr <;> rw [hb]
  · have hfa := hf a (hr a rfl) s'
    exact ⟨fun e he => (List.mem_append.mp he).elim (hs.1 e) (hfa.1 e), hfa.2⟩
  · refine ⟨hs.1, fun err herr => hs.2 err ?_⟩
    cases herr
    rfl

/-- A loop stays within the bound of its body. -/
theorem loop {μ : β → σ → ℕ} {body : β → Process σ ε ω (β ⊕ α)} (hb : ∀ b, Within P E (body b))
    (b : β) : Within P E (Process.loop μ body b) := by
  refine Traces.loop (J := fun _ t => ∀ e ∈ t, P e) ?_ ?_ ?_
  · intro b t ht
    refine Traces.mono (hb b) ?_
    rintro o u ⟨hu, ho⟩
    have hall : ∀ e ∈ t ++ u, P e := fun e he => (List.mem_append.mp he).elim (ht e) (hu e)
    rcases o with (b' | a) | h
    · exact hall
    · exact ⟨hall, nofun⟩
    · refine ⟨hall, fun err he => ho err ?_⟩
      cases he
      rfl
  · exact fun b t ht => ⟨ht, nofun⟩
  · exact nofun

theorem onPart {get : τ → σ} {set : σ → τ → τ} {event : ω → ω'} {P' : ω' → Prop} {E' : ε' → Prop}
    (hm : Within P E m) (hP : ∀ e, P e → P' (event e)) :
    Within P' E' (Process.onPart get set event m) := by
  intro s
  have hs := (hm (get s)).1
  have hmap : ∀ t : List ω, (∀ e ∈ t, P e) → ∀ e ∈ t.map event, P' e := by
    intro t ht e he
    obtain ⟨e', he', rfl⟩ := List.mem_map.mp he
    exact hP e' (ht e' he')
  unfold Process.onPart
  rcases hr : m (get s) with ⟨a | e | p | _, s', t⟩ <;> rw [hr] at hs <;>
    exact ⟨hmap t hs, nofun⟩

end Within

/-! ### Guarded processes -/

/-- Every event is in the first set, and an error in the second one comes before any event. -/
def FailsFirst (P : ω → Prop) (I : ε → Prop) (m : Process σ ε ω α) : Prop :=
  Traces m fun o t => (∀ e ∈ t, P e) ∧ ∀ err, o = .halted (.failed err) → I err → t = []

namespace FailsFirst

/-- A process that never fails with these errors may act at once. -/
theorem of_within (hm : Within P (fun err => ¬ I err) m) : FailsFirst P I m :=
  Traces.mono hm fun _ _ h => ⟨h.1, fun err ho hi => absurd hi (h.2 err ho)⟩

/-- A process that halts before it acts. -/
theorem halt_bind (h : Halt ε) : FailsFirst P I ((halt h [] : Process σ ε ω α) >>= f) := by
  intro s
  have hs : (halt h [] : Process σ ε ω α) s = ⟨.halted h, s, []⟩ := rfl
  rw [bind_halted hs]
  exact ⟨nofun, fun _ _ _ => rfl⟩

/-- A check before the rest of the process. -/
theorem check {c : Except ε α} (hf : ∀ a, c = .ok a → FailsFirst P I (f a)) :
    FailsFirst P I (ofExcept c >>= f) := by
  cases c with
  | ok a => exact hf a rfl
  | error e => exact halt_bind (.failed e)

/-- A value read from the state before the rest of the process. -/
theorem gets {g : σ → α} (hf : ∀ a, FailsFirst P I (f a)) :
    FailsFirst P I (Process.gets g >>= f) := by
  intro s
  have hs : Process.gets g s = (⟨.done (g s), s, []⟩ : Run σ ε ω α) := rfl
  rw [bind_done hs]
  exact hf (g s) s

/-- What follows a guarded process never fails with the errors in question. -/
theorem bind (hm : FailsFirst P I m) (hf : ∀ a, Within P (fun err => ¬ I err) (f a)) :
    FailsFirst P I (m >>= f) := by
  refine Traces.bind hm ?_ ?_
  · intro a t ht
    refine Traces.mono (hf a) ?_
    rintro o u ⟨hu, ho⟩
    exact ⟨fun e he => (List.mem_append.mp he).elim (ht.1 e) (hu e),
      fun err he hi => absurd hi (ho err he)⟩
  · rintro h t ⟨ht, hh⟩
    refine ⟨ht, fun err he => hh err ?_⟩
    cases he
    rfl

theorem catchPanic {g : σ → Panic → ε} (hm : FailsFirst P I m) (hg : ∀ s p, ¬ I (g s p)) :
    FailsFirst P I (Process.catchPanic g m) := by
  intro s
  have hs := hm s
  unfold Process.catchPanic
  rcases hr : m s with ⟨a | e | p | _, s', t⟩ <;> rw [hr] at hs
  · exact hs
  · exact hs
  · refine ⟨hs.1, fun err he hi => ?_⟩
    cases he
    exact absurd hi (hg s' p)
  · exact hs

end FailsFirst

end Effect.Process
