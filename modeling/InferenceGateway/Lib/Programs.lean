import Mathlib
/-!
# Programs of single steps

A program is a sequence of atomic steps on a state it shares with others. A step waits
until it can be made, changes the state, and what comes next depends on the state before
it. `exec` is what a program does when nobody else is about.
-/

namespace InferenceGateway.Lib

open List

inductive Prog (σ α : Type) where
  | ret (a : α)
  | act (ready : σ → Bool) (f : σ → σ) (k : σ → Prog σ α)

namespace Prog

variable {σ τ α β : Type}

def bind (p : Prog σ α) (q : α → Prog σ β) : Prog σ β :=
  match p with
  | ret a => q a
  | act ready f k => act ready f fun s => (k s).bind q

instance : Monad (Prog σ) where
  pure := ret
  bind := bind

/-- A step that changes nothing. -/
def read (f : σ → α) : Prog σ α := act (fun _ => true) id fun s => ret (f s)

def write (f : σ → σ) : Prog σ Unit := act (fun _ => true) f fun _ => ret ()

/-- Steps that have to wait. -/
def await (ready : σ → Bool) (f : σ → σ) : Prog σ Unit := act ready f fun _ => ret ()

def readWhen (ready : σ → Bool) (f : σ → α) : Prog σ α := act ready id fun s => ret (f s)

/-- A step that changes the state and has an answer. -/
def modifyGet (f : σ → α × σ) : Prog σ α := act (fun _ => true) (fun s => (f s).2) fun s => ret (f s).1

/-- A program on a part of the state. -/
def on (get : τ → σ) (set : τ → σ → τ) : Prog σ α → Prog τ α
  | ret a => ret a
  | act ready f k => act (fun t => ready (get t)) (fun t => set t (f (get t))) fun t => (k (get t)).on get set

def exec : Prog σ α → σ → α × σ
  | ret a, s => (a, s)
  | act _ f k, s => (k s).exec (f s)

@[simp] theorem exec_pure (a : α) (s : σ) : (pure a : Prog σ α).exec s = (a, s) := rfl

@[simp] theorem exec_read (f : σ → α) (s : σ) : (read f).exec s = (f s, s) := rfl

@[simp] theorem exec_write (f : σ → σ) (s : σ) : (write f).exec s = ((), f s) := rfl

@[simp] theorem exec_await (ready : σ → Bool) (f : σ → σ) (s : σ) : (await ready f).exec s = ((), f s) := rfl

@[simp] theorem exec_readWhen (ready : σ → Bool) (f : σ → α) (s : σ) : (readWhen ready f).exec s = (f s, s) := rfl

@[simp] theorem exec_modifyGet (f : σ → α × σ) (s : σ) : (modifyGet f).exec s = f s := rfl

@[simp] theorem exec_bind (p : Prog σ α) (q : α → Prog σ β) (s : σ) :
    (p >>= q).exec s = (q (p.exec s).1).exec (p.exec s).2 := by
  change (p.bind q).exec s = _
  induction p generalizing s with
  | ret a => rfl
  | act ready f k ih => exact ih s (f s)

@[simp] theorem exec_discard (p : Prog σ α) (s : σ) : (discard p : Prog σ PUnit).exec s = (⟨⟩, (p.exec s).2) :=
  exec_bind p (fun _ => pure PUnit.unit) s

theorem exec_on (get : τ → σ) (set : τ → σ → τ) (hset : ∀ t s, get (set t s) = s) (hsame : ∀ t, set t (get t) = t)
    (htwice : ∀ t s s', set (set t s) s' = set t s') (p : Prog σ α) (t : τ) :
    (p.on get set).exec t = ((p.exec (get t)).1, set t (p.exec (get t)).2) := by
  induction p generalizing t with
  | ret a => rw [on, exec, exec, hsame]
  | act ready f k ih =>
    rw [on, exec, ih, hset, htwice]
    rfl

theorem exec_forM_cons (body : α → Prog σ Unit) (x : α) (xs : List α) (s : σ) :
    ((x :: xs).forM body).exec s = (xs.forM body).exec ((body x).exec s).2 :=
  exec_bind (body x) (fun _ => xs.forM body) s

/-- What each round of a loop keeps, the loop keeps. -/
theorem exec_foldlM (body : β → α → Prog σ β) (I : List α → σ → Prop) (xs : List α)
    (hbody : ∀ done x rest b s, xs = done ++ x :: rest → I done s → I (done ++ [x]) ((body b x).exec s).2) (b : β) {s : σ}
    (h : I [] s) : I xs ((xs.foldlM body b).exec s).2 := by
  have hfrom : ∀ (todo done : List α) (b : β) (s : σ), xs = done ++ todo → I done s → I xs ((todo.foldlM body b).exec s).2 := by
    intro todo
    induction todo with
    | nil =>
      intro done b s hxs hdone
      rw [hxs, append_nil]
      exact hdone
    | cons x todo ih =>
      intro done b s hxs hdone
      have hrest := ih (done ++ [x]) ((body b x).exec s).1 _ (by simp [hxs]) (hbody done x todo b s hxs hdone)
      simpa using hrest
  exact hfrom xs [] b s rfl h

theorem exec_forM (body : α → Prog σ Unit) (I : List α → σ → Prop) (xs : List α)
    (hbody : ∀ done x rest s, xs = done ++ x :: rest → I done s → I (done ++ [x]) ((body x).exec s).2) {s : σ} (h : I [] s) :
    I xs ((xs.forM body).exec s).2 := by
  have hfold : ∀ (l : List α) (s : σ), (l.forM body).exec s = (l.foldlM (fun _ x => body x) ()).exec s := by
    intro l
    induction l with
    | nil => exact fun _ => rfl
    | cons x l ih =>
      intro s
      rw [exec_forM_cons, ih, foldlM_cons, exec_bind]
  rw [hfold]
  exact exec_foldlM _ I xs (fun done x rest _ => hbody done x rest) () h

end Prog

end InferenceGateway.Lib
