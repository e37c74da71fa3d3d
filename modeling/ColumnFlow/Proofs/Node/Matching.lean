import ColumnFlow.Node.Work
import ColumnFlow.Proofs.Node.Footprint

/-!
# Runs side by side

Two runs match when both succeed, or both fail with one failure, and what is asked for holds of the
memories they leave.
-/
namespace ColumnFlow.Work

variable {α β γ δ : Type}

theorem run_bind (x : Work α) (f : α → Work β) (w : Workspace) :
    (x >>= f) w = match x w with
      | (.ok a, v) => f a v
      | (.error e, v) => (.error e, v) := by
  change (ExceptT.bindCont f (x w).1) (x w).2 = _
  rcases x w with ⟨_ | _, v⟩ <;> rfl

theorem ok_of_bind {x : Work α} {f : α → Work β} {w v : Workspace} {b : β}
    (h : (x >>= f) w = (.ok b, v)) : ∃ a u, x w = (.ok a, u) ∧ f a u = (.ok b, v) := by
  rw [run_bind] at h
  rcases hx : x w with ⟨e | a, u⟩
  · rw [hx] at h
    cases congrArg Prod.fst h
  · rw [hx] at h
    exact ⟨a, u, rfl, h⟩

theorem run_placing_bind (f : Memory → α × Memory) (g : α → Work β) (w : Workspace) :
    (placing f >>= g) w = g (f w.memory).1 { w with memory := (f w.memory).2 } := rfl

theorem run_ok_bind (a : α) (f : α → Work β) (w : Workspace) :
    ((liftM (.ok a : Except Failure α) : Work α) >>= f) w = f a w := rfl

theorem throw_bind (e : Failure) (f : α → Work β) : (throw e >>= f) = throw e := rfl

/-- Two outcomes of one kind: results and memories that `Q` relates, or one failure and memories
that `E` relates. -/
def Matched (Q : α → β → Memory → Memory → Prop) (E : Memory → Memory → Prop) :
    Except Failure α × Workspace → Except Failure β × Workspace → Prop
  | (.ok a, v), (.ok b, v') => Q a b v.memory v'.memory
  | (.error e, v), (.error e', v') => e = e' ∧ E v.memory v'.memory
  | _, _ => False

namespace Matched

variable {Q Q' : α → β → Memory → Memory → Prop} {R : γ → δ → Memory → Memory → Prop}
  {E E' : Memory → Memory → Prop} {w w' : Workspace}

theorem mono {o : Except Failure α × Workspace} {o' : Except Failure β × Workspace}
    (h : Matched Q E o o') (hQ : ∀ a b m m', Q a b m m' → Q' a b m m')
    (hE : ∀ m m', E m m' → E' m m') : Matched Q' E' o o' := by
  rcases o with ⟨_ | _, v⟩ <;> rcases o' with ⟨_ | _, v'⟩ <;> simp only [Matched] at h ⊢
  · exact ⟨h.1, hE _ _ h.2⟩
  · exact hQ _ _ _ _ h

theorem bind {x : Work α} {y : Work β} {f : α → Work γ} {g : β → Work δ}
    (h : Matched Q E' (x w) (y w')) (hE : ∀ m m', E' m m' → E m m')
    (hf : ∀ a b v v', Q a b v.memory v'.memory → Matched R E (f a v) (g b v')) :
    Matched R E ((x >>= f) w) ((y >>= g) w') := by
  rw [run_bind, run_bind]
  rcases hx : x w with ⟨_ | a, v⟩ <;> rcases hy : y w' with ⟨_ | b, v'⟩ <;>
    rw [hx, hy] at h <;> simp only [Matched] at h ⊢
  · exact ⟨h.1, hE _ _ h.2⟩
  · exact hf a b v v' h

/-- What follows after two computations matched may end in different ways. -/
theorem memories {x : Work α} {y : Work β} {f : α → Work γ} {g : β → Work δ}
    (h : Matched Q E (x w) (y w'))
    (hf : ∀ a b v v', Q a b v.memory v'.memory → E (f a v).2.memory (g b v').2.memory) :
    E ((x >>= f) w).2.memory ((y >>= g) w').2.memory := by
  rw [run_bind, run_bind]
  rcases hx : x w with ⟨_ | a, v⟩ <;> rcases hy : y w' with ⟨_ | b, v'⟩ <;>
    rw [hx, hy] at h <;> simp only [Matched] at h
  · exact h.2
  · exact hf a b v v' h

theorem pure {a : α} {b : β} (h : Q a b w.memory w'.memory) :
    Matched Q E ((Pure.pure a : Work α) w) ((Pure.pure b : Work β) w') := h

theorem throw (e : Failure) (h : E w.memory w'.memory) :
    Matched Q E ((MonadExcept.throw e : Work α) w) ((MonadExcept.throw e : Work β) w') := ⟨rfl, h⟩

end Matched

/-- A computation that leaves the memory alone and does not depend on it. -/
def Steady (x : Work α) : Prop :=
  ∀ w w', (x w).1 = (x w').1 ∧ (x w).2.memory = w.memory

namespace Steady

theorem pure (a : α) : Steady (Pure.pure a : Work α) := fun _ _ => ⟨rfl, rfl⟩

theorem throw (e : Failure) : Steady (MonadExcept.throw e : Work α) := fun _ _ => ⟨rfl, rfl⟩

theorem bind {x : Work α} {f : α → Work β} (hx : Steady x) (hf : ∀ a, Steady (f a)) :
    Steady (x >>= f) := by
  intro w w'
  obtain ⟨hresult, hmemory⟩ := hx w w'
  obtain ⟨-, hmemory'⟩ := hx w' w
  rw [run_bind, run_bind]
  rcases h : x w with ⟨e | a, v⟩ <;> rcases h' : x w' with ⟨e' | a', v'⟩ <;>
    rw [h] at hmemory hresult <;> rw [h'] at hmemory' hresult <;> simp only at hmemory hresult ⊢
  · exact ⟨by rw [Except.error.inj hresult], hmemory⟩
  · exact absurd hresult (by simp)
  · exact absurd hresult (by simp)
  · obtain rfl := Except.ok.inj hresult
    obtain ⟨h₁, h₂⟩ := hf a v v'
    exact ⟨h₁, h₂.trans hmemory⟩

theorem logged (x : Logged α) : Steady (liftM x : Work α) := by
  intro w w'
  change (ofLogged x w).1 = (ofLogged x w').1 ∧ (ofLogged x w).2.memory = w.memory
  rcases x with ⟨notices, _ | a⟩ <;> exact ⟨rfl, rfl⟩

theorem except (x : Except Failure α) : Steady (liftM x : Work α) := by
  intro w w'
  change (ofExcept x w).1 = (ofExcept x w').1 ∧ (ofExcept x w).2.memory = w.memory
  rcases x with _ | a <;> exact ⟨rfl, rfl⟩

theorem settings (env : Surroundings) : Steady (Work.settings env) :=
  (except env.settings).bind fun _ => fun _ _ => ⟨rfl, rfl⟩

theorem note (n : Notice) : Steady (Work.note n) := fun _ _ => ⟨rfl, rfl⟩

end Steady

theorem Steady.matched {x : Work α} (hx : Steady x) (w w' : Workspace) :
    Matched (fun a b m m' => a = b ∧ m = w.memory ∧ m' = w'.memory)
      (fun m m' => m = w.memory ∧ m' = w'.memory) (x w) (x w') := by
  obtain ⟨hresult, hmemory⟩ := hx w w'
  obtain ⟨-, hmemory'⟩ := hx w' w
  rcases h : x w with ⟨e | a, v⟩ <;> rcases h' : x w' with ⟨e' | a', v'⟩ <;>
    rw [h] at hmemory hresult <;> rw [h'] at hmemory' hresult <;> simp only [Matched]
  · exact ⟨Except.error.inj hresult, hmemory, hmemory'⟩
  · exact absurd hresult (by simp)
  · exact absurd hresult (by simp)
  · exact ⟨Except.ok.inj hresult, hmemory, hmemory'⟩

theorem Steady.ends {x : Work α} (hx : Steady x) {w w' : Workspace}
    {P : Memory → Memory → Prop} (hP : P w.memory w'.memory) :
    Matched (fun a b m m' => a = b ∧ P m m') P (x w) (x w') := by
  refine (hx.matched w w').mono (fun a b m m' h => ?_) fun m m' h => ?_
  · obtain ⟨rfl, rfl, rfl⟩ := h
    exact ⟨rfl, hP⟩
  · obtain ⟨rfl, rfl⟩ := h
    exact hP

/-- Both sides may do what leaves the memory alone. -/
theorem Matched.steady {R : β → γ → Memory → Memory → Prop} {P E : Memory → Memory → Prop}
    {w w' : Workspace} {x : Work α} {f : α → Work β} {g : α → Work γ} (hx : Steady x)
    (hP : P w.memory w'.memory) (hE : ∀ m m', P m m' → E m m')
    (hf : ∀ a v v', P v.memory v'.memory → Matched R E (f a v) (g a v')) :
    Matched R E ((x >>= f) w) ((x >>= g) w') := by
  refine bind (hx.ends hP) hE fun a b v v' h => ?_
  obtain ⟨rfl, hv⟩ := h
  exact hf a v v' hv

theorem Matched.keep {R : β → γ → Memory → Memory → Prop} {E : Memory → Memory → Prop}
    {w w' : Workspace} {x : Work α} {f : α → Work β} {g : α → Work γ} (hx : Steady x)
    (hE : E w.memory w'.memory)
    (hf : ∀ a v v', E v.memory v'.memory → Matched R E (f a v) (g a v')) :
    Matched R E ((x >>= f) w) ((x >>= g) w') :=
  .steady hx hE (fun _ _ h => h) hf

/-- A failure that is caught is one of two ways to go on. -/
theorem Matched.attempt {Q : α → α → Memory → Memory → Prop} {R : β → γ → Memory → Memory → Prop}
    {E F : Memory → Memory → Prop} {w w' : Workspace} {x y : Work α}
    {f : Except Failure α → Work β} {g : Except Failure α → Work γ}
    (h : Matched Q E (x w) (y w'))
    (herror : ∀ e v v', E v.memory v'.memory → Matched R F (f (.error e) v) (g (.error e) v'))
    (hok : ∀ a b v v', Q a b v.memory v'.memory → Matched R F (f (.ok a) v) (g (.ok b) v')) :
    Matched R F ((Work.attempt x >>= f) w) ((Work.attempt y >>= g) w') := by
  have hrun : ∀ (x : Work α) (w : Workspace), Work.attempt x w = (.ok (x w).1, (x w).2) :=
    fun _ _ => rfl
  rw [run_bind, run_bind, hrun, hrun]
  rcases hx : x w with ⟨e | a, v⟩ <;> rcases hy : y w' with ⟨e' | b, v'⟩ <;>
    rw [hx, hy] at h <;> simp only [Matched] at h
  · obtain ⟨rfl, h⟩ := h
    exact herror e v v' h
  · exact hok a b v v' h

end ColumnFlow.Work
