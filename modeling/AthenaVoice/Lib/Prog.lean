import AthenaVoice.Lib.Machine

/-
  Programs that call out — a handler as the tree of its calls

  A program returns, or makes a call and goes on with the answer. What a call
  does is not the program's: a service takes a state, a choice of the
  environment and the call to the next state and the answer. So one program
  has two readings: `exec`, where its calls follow each other, and `pool`,
  where any number of programs take turns, a call at a time.

  What is proved:
    1. `exec_of_ensures` — what holds of every outcome, by recursion on the
       program, holds of the outcome under any choices.
    2. `ensures_bind`, `ensures_mono`, `ensures_forEach` — the rules to reason
       with, the last one for loops.
    3. `uses_bind`, `uses_forEach`, `uses_mono` — which calls a program makes.
    4. `exec_frame` — a state that none of its calls changes is left as it was.
    5. `exec_of_allows` — an outcome that some answers lead to is one of a run;
       `allows_bind`, `allows_mono`, `allows_forEach_append`, the rules for it.
-/

namespace AthenaVoice.Lib

universe u v w x y z

/-- A program over calls `ι`, the call `c` being answered in `β c`. -/
inductive Prog (ι : Type u) (β : ι → Type v) (α : Type w) where
  | ret (a : α)
  | call (c : ι) (next : β c → Prog ι β α)

namespace Prog

variable {ι : Type u} {β : ι → Type v} {α γ : Type w} {σ : Type x} {ε : Type y}

def bind : Prog ι β α → (α → Prog ι β γ) → Prog ι β γ
  | .ret a, f => f a
  | .call c next, f => .call c (fun b => (next b).bind f)

instance : Monad (Prog ι β) where
  pure := .ret
  bind := bind

@[simp] theorem ret_bind (a : α) (f : α → Prog ι β γ) : (Prog.ret a >>= f) = f a := rfl

@[simp] theorem pure_eq_ret (a : α) : (pure a : Prog ι β α) = .ret a := rfl

@[simp] theorem call_bind (c : ι) (next : β c → Prog ι β α) (f : α → Prog ι β γ) :
    (Prog.call c next >>= f) = .call c (fun b => next b >>= f) := rfl

def head : Prog ι β α → Option ι
  | .ret _ => none
  | .call c _ => some c

/-- A loop that may end early, with an answer. -/
def forEach {δ : Type z} (body : δ → Prog ι β (Option α)) : List δ → Prog ι β (Option α)
  | [] => .ret none
  | d :: ds => body d >>= fun
    | some a => .ret (some a)
    | none => forEach body ds

/-! ## One program at a time -/

/-- The calls made, with their answers. -/
abbrev Trace (ι : Type u) (β : ι → Type v) := List (Σ c : ι, β c)

/-- What the program does to the state, the calls it makes and what it returns,
the `n`-th call being answered under the choice `e n`. -/
def exec (serve : σ → ε → (c : ι) → σ × β c) : (Nat → ε) → σ → Prog ι β α →
    σ × Trace ι β × α
  | _, s, .ret a => (s, [], a)
  | e, s, .call c next =>
    let served := serve s (e 0) c
    let rest := exec serve (fun n => e (n + 1)) served.1 (next served.2)
    (rest.1, ⟨c, served.2⟩ :: rest.2.1, rest.2.2)

/-- Whatever the choices, the outcome satisfies `Q`. -/
def Ensures (serve : σ → ε → (c : ι) → σ × β c) : σ → Prog ι β α →
    (σ → Trace ι β → α → Prop) → Prop
  | s, .ret a, Q => Q s [] a
  | s, .call c next, Q => ∀ e, Ensures serve (serve s e c).1 (next (serve s e c).2)
      (fun s' t a => Q s' (⟨c, (serve s e c).2⟩ :: t) a)

variable {serve : σ → ε → (c : ι) → σ × β c}

theorem exec_of_ensures {p : Prog ι β α} : ∀ {s : σ}
    {Q : σ → Trace ι β → α → Prop}, Ensures serve s p Q →
    ∀ e, Q (exec serve e s p).1 (exec serve e s p).2.1 (exec serve e s p).2.2 := by
  induction p with
  | ret a =>
    intro s Q h e
    exact h
  | call c next ih =>
    intro s Q h e
    exact ih _ (h (e 0)) (fun n => e (n + 1))

theorem ensures_mono {p : Prog ι β α} : ∀ {s : σ} {Q R : σ → Trace ι β → α → Prop},
    Ensures serve s p Q → (∀ s' t a, Q s' t a → R s' t a) → Ensures serve s p R := by
  induction p with
  | ret a =>
    intro s Q R h hQR
    exact hQR s [] a h
  | call c next ih =>
    intro s Q R h hQR e
    exact ih _ (h e) (fun s' t a => hQR s' _ a)

theorem ensures_of_forall {Q : σ → Trace ι β → α → Prop} (h : ∀ s t a, Q s t a) :
    ∀ (p : Prog ι β α) (s : σ), Ensures serve s p Q := by
  intro p
  induction p generalizing Q with
  | ret a =>
    intro s
    exact h s [] a
  | call c next ih =>
    intro s e
    exact ih _ (fun s' t a => h s' _ a) _

theorem exec_const (e : ε) {p : Prog ι β α} : ∀ s : σ,
    exec serve (fun _ => e) s p = exec (fun s (_ : Unit) c => serve s e c) (fun _ => ()) s p := by
  induction p with
  | ret a =>
    intro s
    rfl
  | call c next ih =>
    intro s
    simp only [exec]
    rw [ih]

theorem exec_comap {δ : Type z} (g : δ → ε) {p : Prog ι β α} : ∀ (e : Nat → δ) (s : σ),
    exec serve (fun n => g (e n)) s p = exec (fun s d c => serve s (g d) c) e s p := by
  induction p with
  | ret a =>
    intro e s
    rfl
  | call c next ih =>
    intro e s
    simp only [exec]
    rw [ih]

theorem ensures_bind {p : Prog ι β α} {f : α → Prog ι β γ} : ∀ {s : σ}
    {Q : σ → Trace ι β → γ → Prop},
    Ensures serve s p (fun s' t a => Ensures serve s' (f a) (fun s'' t' c => Q s'' (t ++ t') c)) →
      Ensures serve s (p >>= f) Q := by
  induction p with
  | ret a =>
    intro s Q h
    exact h
  | call c next ih =>
    intro s Q h e
    exact ih _ (h e)

/-- A loop keeps what each turn of it keeps; `I` is the invariant over the state,
the items done and the calls made so far, `Q` what an early end leaves. -/
theorem ensures_forEach {δ : Type z} {body : δ → Prog ι β (Option α)}
    {I : σ → List δ → Trace ι β → Prop}
    {Q : σ → Trace ι β → Option α → Prop} {l : List δ}
    (hbody : ∀ s done d rest t, l = done ++ d :: rest → I s done t → Ensures serve s (body d) (fun s' t' r =>
      match r with
      | none => I s' (done ++ [d]) (t ++ t')
      | some a => Q s' (t ++ t') (some a)))
    (hend : ∀ s t, I s l t → Q s t none) {s : σ} (hstart : I s [] []) : Ensures serve s (forEach body l) Q := by
  suffices h : ∀ (ds done : List δ) (s : σ) (t : Trace ι β), l = done ++ ds → I s done t →
      Ensures serve s (forEach body ds) (fun s' t' r => Q s' (t ++ t') r) from h l [] s [] rfl hstart
  intro ds
  induction ds with
  | nil =>
    intro done s t hl hI
    show Q s (t ++ []) none
    rw [List.append_nil] at hl ⊢
    exact hend s t (hl ▸ hI)
  | cons d ds ih =>
    intro done s t hl hI
    refine ensures_bind (ensures_mono (hbody s done d ds t hl hI) ?_)
    intro s' t' r hr
    cases r with
    | some a =>
      show Q s' (t ++ (t' ++ [])) (some a)
      rw [List.append_nil]
      exact hr
    | none =>
      have hrest := ih (done ++ [d]) s' (t ++ t') (by rw [hl, List.append_assoc]; rfl) hr
      apply ensures_mono hrest
      intro s'' t'' a h
      rw [List.append_assoc] at h
      exact h

/-! ## What may come of a program -/

/-- Under some choices, the outcome satisfies `Q`. -/
def Allows (serve : σ → ε → (c : ι) → σ × β c) : σ → Prog ι β α →
    (σ → Trace ι β → α → Prop) → Prop
  | s, .ret a, Q => Q s [] a
  | s, .call c next, Q => ∃ e, Allows serve (serve s e c).1 (next (serve s e c).2)
      (fun s' t a => Q s' (⟨c, (serve s e c).2⟩ :: t) a)

theorem exec_of_allows [Inhabited ε] {p : Prog ι β α} : ∀ {s : σ} {Q : σ → Trace ι β → α → Prop},
    Allows serve s p Q → ∃ e, Q (exec serve e s p).1 (exec serve e s p).2.1 (exec serve e s p).2.2 := by
  induction p with
  | ret a =>
    intro s Q h
    exact ⟨fun _ => default, h⟩
  | call c next ih =>
    intro s Q h
    obtain ⟨first, h⟩ := h
    obtain ⟨e, h⟩ := ih _ h
    exact ⟨fun | 0 => first | n + 1 => e n, h⟩

theorem allows_mono {p : Prog ι β α} : ∀ {s : σ} {Q R : σ → Trace ι β → α → Prop},
    Allows serve s p Q → (∀ s' t a, Q s' t a → R s' t a) → Allows serve s p R := by
  induction p with
  | ret a =>
    intro s Q R h hQR
    exact hQR s [] a h
  | call c next ih =>
    intro s Q R h hQR
    obtain ⟨e, h⟩ := h
    exact ⟨e, ih _ h (fun s' t a => hQR s' _ a)⟩

theorem allows_bind {p : Prog ι β α} {f : α → Prog ι β γ} : ∀ {s : σ}
    {Q : σ → Trace ι β → γ → Prop},
    Allows serve s p (fun s' t a => Allows serve s' (f a) (fun s'' t' c => Q s'' (t ++ t') c)) →
      Allows serve s (p >>= f) Q := by
  induction p with
  | ret a =>
    intro s Q h
    exact h
  | call c next ih =>
    intro s Q h
    obtain ⟨e, h⟩ := h
    exact ⟨e, ih _ h⟩

/-- A loop whose turns may each go on, the turn of `d` taking `s` to `f s d`,
may get past a first part of its items. -/
theorem allows_forEach_append {δ : Type z} {body : δ → Prog ι β (Option α)} {f : σ → δ → σ}
    (hbody : ∀ s d, Allows serve s (body d) (fun s' _ r => r = none ∧ s' = f s d)) {rest : List δ}
    {Q : σ → Option α → Prop} : ∀ (done : List δ) {s : σ},
      Allows serve (done.foldl f s) (forEach body rest) (fun s' _ r => Q s' r) →
      Allows serve s (forEach body (done ++ rest)) (fun s' _ r => Q s' r) := by
  intro done
  induction done with
  | nil =>
    intro s h
    exact h
  | cons d done ih =>
    intro s h
    refine allows_bind (allows_mono (hbody s d) ?_)
    rintro s' t r ⟨rfl, rfl⟩
    exact ih h

/-! ## The calls a program makes -/

/-- Every call the program makes, whatever it is answered, is an allowed one. -/
def Uses (allowed : ι → Prop) : Prog ι β α → Prop
  | .ret _ => True
  | .call c next => allowed c ∧ ∀ b, Uses allowed (next b)

theorem uses_mono {allowed allowed' : ι → Prop} (h : ∀ c, allowed c → allowed' c) {p : Prog ι β α}
    (hp : p.Uses allowed) :
    p.Uses allowed' := by
  induction p with
  | ret a => trivial
  | call c next ih => exact ⟨h c hp.1, fun b => ih b (hp.2 b)⟩

theorem uses_bind {allowed : ι → Prop} {p : Prog ι β α} {f : α → Prog ι β γ} (hp : p.Uses allowed)
    (hf : ∀ a, (f a).Uses allowed) : (p >>= f).Uses allowed := by
  induction p with
  | ret a => exact hf a
  | call c next ih => exact ⟨hp.1, fun b => ih b (hp.2 b)⟩

/-- A state that no call of the program changes is what the program leaves. -/
theorem exec_frame {allowed : ι → Prop} (hserve : ∀ s e c, allowed c → (serve s e c).1 = s) {p : Prog ι β α}
    (hp : p.Uses allowed) : ∀ (e : Nat → ε) (s : σ), (exec serve e s p).1 = s := by
  induction p with
  | ret a =>
    intro e s
    rfl
  | call c next ih =>
    intro e s
    calc (exec serve e s (.call c next)).1 = (serve s (e 0) c).1 := ih _ (hp.2 _) _ _
      _ = s := hserve s (e 0) c hp.1

theorem uses_forEach {δ : Type z} {allowed : ι → Prop} {body : δ → Prog ι β (Option α)}
    (hbody : ∀ d, (body d).Uses allowed) (ds : List δ) : (forEach body ds).Uses allowed := by
  induction ds with
  | nil => trivial
  | cons d ds ih =>
    apply uses_bind (hbody d)
    intro r
    cases r with
    | some a => trivial
    | none => exact ih

/-! ## Programs that take turns -/

/-- A request arrives, or the `i`-th program makes its next call. -/
inductive PoolAction (ρ : Type z) (ε : Type y) where
  | request (r : ρ)
  | advance (i : Nat) (e : ε)

/-- The state the programs share, and what is left of each of them. -/
structure Pool (ι : Type u) (β : ι → Type v) (α : Type w) (σ : Type x) where
  shared : σ
  programs : List (Prog ι β α)

/-- Any number of programs, a call at a time. -/
def pool {ρ : Type z} (serve : σ → ε → (c : ι) → σ × β c) (program : ρ → Prog ι β α) :
    Machine (Pool ι β α σ) (PoolAction ρ ε) Empty where
  step := fun s a =>
    match a with
    | .request r => some ({ s with programs := s.programs ++ [program r] }, [])
    | .advance i e =>
      match s.programs[i]? with
      | some (.call c next) =>
        let served := serve s.shared e c
        some ({ shared := served.1, programs := s.programs.modify i (fun _ => next served.2) }, [])
      | _ => none

def Pool.Finished (s : Pool ι β α σ) : Prop := ∀ p ∈ s.programs, p.head = none

instance (s : Pool ι β α σ) : Decidable s.Finished :=
  inferInstanceAs (Decidable (∀ p ∈ s.programs, p.head = none))

end Prog

end AthenaVoice.Lib
