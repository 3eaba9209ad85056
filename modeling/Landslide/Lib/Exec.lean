import Mathlib.Tactic.Common
import Mathlib.Data.List.Basic

/-! # Executions that log their durable writes

A call of a stateful procedure returns a value, fails with an error, or panics.
Whichever it is, the writes it issued before that point have already reached the
disk. An execution therefore carries its outcome together with the list of writes
in the order in which they were issued; a crash leaves a prefix of that list.
-/
namespace Landslide

section
variable {ε δ α β : Type}

theorem bind_eq_ok {x : Except ε α} {f : α → Except ε β} {b : β} (h : (x >>= f) = .ok b) :
    ∃ a, x = .ok a ∧ f a = .ok b := by
  cases x with
  | error e => cases h
  | ok a => exact ⟨a,rfl,h⟩

theorem mapError_eq_ok {x : Except ε α} {f : ε → δ} {a : α} (h : x.mapError f = .ok a) :
    x = .ok a := by
  cases x with
  | error e => cases h
  | ok b =>
    cases h
    rfl

end

/-- How a call ends: a value, a returned error, or a panic with its message. -/
inductive Outcome (ε α : Type) where
  | ok (a : α)
  | error (e : ε)
  | panic (message : String)
  deriving DecidableEq, Repr

namespace Outcome
variable {ε α β : Type}

def isPanic : Outcome ε α → Bool
  | panic _ => true
  | _ => false

def bind (x : Outcome ε α) (f : α → Outcome ε β) : Outcome ε β :=
  match x with
  | ok a => f a
  | error e => error e
  | panic p => panic p

instance : Monad (Outcome ε) where
  pure := ok
  bind := bind

def ofOption (failure : Option ε) : Outcome ε Unit :=
  match failure with
  | none => ok ()
  | some e => error e

def ofExcept {δ : Type} (wrap : δ → ε) : Except δ α → Outcome ε α
  | .ok a => ok a
  | .error e => error (wrap e)

def mapError {δ : Type} (f : δ → ε) : Outcome δ α → Outcome ε α
  | ok a => ok a
  | error e => error (f e)
  | panic p => panic p

@[simp] theorem isPanic_ok (a : α) : (ok a : Outcome ε α).isPanic = false := rfl
@[simp] theorem isPanic_error (e : ε) : (error e : Outcome ε α).isPanic = false := rfl
@[simp] theorem isPanic_panic (p : String) : (panic p : Outcome ε α).isPanic = true := rfl

@[simp] theorem pure_eq (a : α) : (pure a : Outcome ε α) = ok a := rfl
@[simp] theorem ok_bind (a : α) (f : α → Outcome ε β) : (ok a >>= f) = f a := rfl
@[simp] theorem error_bind (e : ε) (f : α → Outcome ε β) : (error e >>= f) = error e := rfl
@[simp] theorem panic_bind (p : String) (f : α → Outcome ε β) : (panic p >>= f) = panic p := rfl

@[simp] theorem ofOption_none : (ofOption none : Outcome ε Unit) = ok () := rfl
@[simp] theorem ofOption_some (e : ε) : ofOption (some e) = error e := rfl
@[simp] theorem ofExcept_ok {δ : Type} (wrap : δ → ε) (a : α) :
    ofExcept wrap (.ok a) = ok a := rfl
@[simp] theorem ofExcept_error {δ : Type} (wrap : δ → ε) (e : δ) :
    (ofExcept wrap (.error e) : Outcome ε α) = error (wrap e) := rfl

theorem ofExcept_eq_ok_iff {δ : Type} {wrap : δ → ε} {x : Except δ α} {a : α} :
    ofExcept wrap x = ok a ↔ x = .ok a := by
  cases x <;> simp

theorem bind_eq_ok_iff {x : Outcome ε α} {f : α → Outcome ε β} {b : β} :
    (x >>= f) = ok b ↔ ∃ a, x = ok a ∧ f a = ok b := by
  cases x <;> simp

@[simp] theorem isPanic_ofOption (failure : Option ε) : (ofOption failure).isPanic = false := by
  cases failure <;> rfl

@[simp] theorem isPanic_ofExcept {δ : Type} (wrap : δ → ε) (x : Except δ α) :
    (ofExcept wrap x).isPanic = false := by
  cases x <;> rfl

theorem exists_ok {x : Outcome Empty α} (h : x.isPanic = false) : ∃ a, x = ok a := by
  cases x with
  | ok a => exact ⟨a,rfl⟩
  | error e => exact e.elim
  | panic p => cases h

theorem isPanic_bind {x : Outcome ε α} {f : α → Outcome ε β} (hx : x.isPanic = false)
    (hf : ∀ a, x = ok a → (f a).isPanic = false) : (x >>= f).isPanic = false := by
  cases x with
  | ok a => exact hf a rfl
  | error e => rfl
  | panic p => exact hx

end Outcome

/-- A finished call: its outcome and the durable writes it issued, oldest first. -/
structure Exec (ω ε α : Type) where
  result : Outcome ε α
  log : List ω

namespace Exec
variable {ω ε α β σ : Type}

def bind (m : Exec ω ε α) (f : α → Exec ω ε β) : Exec ω ε β :=
  match m.result with
  | .ok a => ⟨(f a).result,m.log ++ (f a).log⟩
  | .error e => ⟨.error e,m.log⟩
  | .panic p => ⟨.panic p,m.log⟩

instance : Monad (Exec ω ε) where
  pure a := ⟨.ok a,[]⟩
  bind := bind

def lift (x : Outcome ε α) : Exec ω ε α := ⟨x,[]⟩

/-- A durable write that may fail; a failed write leaves nothing behind. -/
def write (w : ω) (failure : Option ε) : Exec ω ε Unit :=
  match failure with
  | none => ⟨.ok (),[w]⟩
  | some e => ⟨.error e,[]⟩

/-- Runs a procedure whose error is only logged: its writes count, its error does not. -/
def attempt {δ : Type} (m : Exec ω δ α) : Exec ω ε Unit := ⟨.ok (),m.log⟩

def mapError {δ : Type} (f : δ → ε) (m : Exec ω δ α) : Exec ω ε α := ⟨m.result.mapError f,m.log⟩

@[simp] theorem mapError_log {δ : Type} (f : δ → ε) (m : Exec ω δ α) :
    (m.mapError f).log = m.log := rfl

@[simp] theorem attempt_eq {δ : Type} (m : Exec ω δ α) :
    (attempt m : Exec ω ε Unit) = ⟨.ok (),m.log⟩ := rfl
@[simp] theorem pure_result (a : α) : (pure a : Exec ω ε α).result = .ok a := rfl
@[simp] theorem pure_log (a : α) : (pure a : Exec ω ε α).log = [] := rfl
@[simp] theorem lift_result (x : Outcome ε α) : (lift x : Exec ω ε α).result = x := rfl
@[simp] theorem lift_log (x : Outcome ε α) : (lift x : Exec ω ε α).log = [] := rfl
@[simp] theorem write_none (w : ω) : (write w none : Exec ω ε Unit) = ⟨.ok (),[w]⟩ := rfl
@[simp] theorem write_some (w : ω) (e : ε) : write w (some e) = ⟨.error e,[]⟩ := rfl

@[simp] theorem lift_ok_bind (a : α) (f : α → Exec ω ε β) : (lift (.ok a) >>= f) = f a := rfl

@[simp] theorem lift_error_bind (e : ε) (f : α → Exec ω ε β) :
    (lift (.error e) >>= f) = ⟨.error e,[]⟩ := rfl

@[simp] theorem lift_panic_bind (p : String) (f : α → Exec ω ε β) :
    (lift (.panic p) >>= f) = ⟨.panic p,[]⟩ := rfl

@[simp] theorem pure_bind (a : α) (f : α → Exec ω ε β) : ((pure a : Exec ω ε α) >>= f) = f a :=
  lift_ok_bind a f

@[simp] theorem ok_bind (a : α) (log : List ω) (f : α → Exec ω ε β) :
    ((⟨.ok a,log⟩ : Exec ω ε α) >>= f) = ⟨(f a).result,log ++ (f a).log⟩ := rfl

@[simp] theorem error_bind (e : ε) (log : List ω) (f : α → Exec ω ε β) :
    ((⟨.error e,log⟩ : Exec ω ε α) >>= f) = ⟨.error e,log⟩ := rfl

@[simp] theorem panic_bind (p : String) (log : List ω) (f : α → Exec ω ε β) :
    ((⟨.panic p,log⟩ : Exec ω ε α) >>= f) = ⟨.panic p,log⟩ := rfl

/-- The durable state after a list of writes, given how one write changes it. -/
def replay (apply : σ → ω → σ) (s : σ) (log : List ω) : σ := log.foldl apply s

@[simp] theorem replay_nil (apply : σ → ω → σ) (s : σ) : replay apply s [] = s := rfl
@[simp] theorem replay_cons (apply : σ → ω → σ) (s : σ) (w : ω) (log : List ω) :
    replay apply s (w :: log) = replay apply (apply s w) log := rfl
theorem replay_append (apply : σ → ω → σ) (s : σ) (l₁ l₂ : List ω) :
    replay apply s (l₁ ++ l₂) = replay apply (replay apply s l₁) l₂ := List.foldl_append ..

/-- A quantity that the marked writes of a log set to one value and the others leave
alone has that value after the log, or the one it had before. -/
theorem replay_marked {γ : Type} (apply : σ → ω → σ) (f : σ → γ) (mark : ω → Bool) (v : γ)
    {log : List ω} (h : ∀ s, ∀ w ∈ log, f (apply s w) = if mark w then v else f s) (s : σ) :
    f (replay apply s log) = if log.any mark then v else f s := by
  induction log generalizing s with
  | nil => rfl
  | cons w rest ih =>
    have hw := h s w List.mem_cons_self
    rw [replay_cons,ih (fun s w hw => h s w (List.mem_cons_of_mem _ hw)),hw,List.any_cons]
    cases mark w <;> cases rest.any mark <;> rfl

end Exec
end Landslide
