-- Programs over a state that may stop early. A program that stops keeps the
-- changes it made before, as an `async fn` that returns with `?` does. The
-- module gives the equations of a run, and the rules of the conditions that a
-- run keeps.
import Mathlib.Logic.Basic

/-- A program that reads and writes a state `σ` and may stop with a fault `ε`. -/
abbrev Program (ε σ : Type) := ExceptT ε (StateM σ)

namespace Program

variable {ε σ τ α β : Type}

/-- The run of a program: its result and the state it leaves. -/
def exec (m : Program ε σ α) (s : σ) : Except ε α × σ := m.run.run s

/-- A program of a part of the state, run inside the whole. -/
def zoom (view : σ → τ) (put : τ → σ → σ) (m : Program ε τ α) : Program ε σ α :=
  ExceptT.mk fun s => let r := exec m (view s); (r.1, put r.2 s)

/-- A part of the state, read. -/
def asks (f : σ → α) : Program ε σ α := ExceptT.mk fun s => (.ok (f s), s)

/-- A future that no one awaits: its body never runs. -/
def unpolled (_ : Program ε σ α) : Program ε σ Unit := pure ()

/-- The program with its errors dropped: a call whose `Result` is ignored. Only the faults
that `caught` picks are dropped. -/
def ignore (caught : ε → Bool) (m : Program ε σ α) : Program ε σ Unit :=
  tryCatch (m >>= fun _ => pure ()) fun e => if caught e then pure () else throw e

/-! ## The equations of a run -/

@[simp] theorem exec_pure (a : α) (s : σ) : exec (pure a : Program ε σ α) s = (.ok a, s) := rfl

theorem exec_bind (m : Program ε σ α) (f : α → Program ε σ β) (s : σ) :
    exec (m >>= f) s = match exec m s with
      | (.ok a, s') => exec (f a) s'
      | (.error e, s') => (.error e, s') := by
  change (match exec m s with
    | (r, s') => exec (ExceptT.mk (ExceptT.bindCont f r)) s') = _
  rcases exec m s with ⟨_ | _, s'⟩ <;> rfl

@[simp] theorem exec_throw (e : ε) (s : σ) :
    exec (throw e : Program ε σ α) s = (.error e, s) := rfl

@[simp] theorem exec_get (s : σ) : exec (get : Program ε σ σ) s = (.ok s, s) := rfl

@[simp] theorem exec_modify (f : σ → σ) (s : σ) :
    exec (modify f : Program ε σ PUnit) s = (.ok ⟨⟩, f s) := rfl

@[simp] theorem exec_asks (f : σ → α) (s : σ) :
    exec (asks f : Program ε σ α) s = (.ok (f s), s) := rfl

@[simp] theorem exec_unpolled (m : Program ε σ α) (s : σ) :
    exec (unpolled m) s = (.ok (), s) := rfl

theorem exec_tryCatch (m : Program ε σ α) (h : ε → Program ε σ α) (s : σ) :
    exec (tryCatch m h) s = match exec m s with
      | (.ok a, s') => (.ok a, s')
      | (.error e, s') => exec (h e) s' := by
  change (match exec m s with
    | (r, s') => StateT.run (match r with
      | .ok a => (pure (Except.ok a) : StateM σ (Except ε α))
      | .error e => (h e).run) s') = _
  rcases exec m s with ⟨_ | _, s'⟩ <;> rfl

/-- Dropping the errors of a program changes nothing in the state it leaves. -/
theorem exec_ignore_state (caught : ε → Bool) (m : Program ε σ α) (s : σ) :
    (exec (ignore caught m) s).2 = (exec m s).2 := by
  rw [ignore, exec_tryCatch, exec_bind]
  rcases exec m s with ⟨e | a, s'⟩
  · cases hc : caught e <;> simp [hc]
  · rfl

@[simp] theorem exec_zoom (view : σ → τ) (put : τ → σ → σ) (m : Program ε τ α) (s : σ) :
    exec (zoom view put m) s = ((exec m (view s)).1, put (exec m (view s)).2 s) := rfl

theorem exec_bind_ok {m : Program ε σ α} {f : α → Program ε σ β} {s s' : σ} {a : α}
    (h : exec m s = (.ok a, s')) : exec (m >>= f) s = exec (f a) s' := by
  rw [exec_bind, h]

theorem exec_bind_error {m : Program ε σ α} {f : α → Program ε σ β} {s s' : σ} {e : ε}
    (h : exec m s = (.error e, s')) : exec (m >>= f) s = (.error e, s') := by
  rw [exec_bind, h]

/-- A sequence that ends well ran both of its parts to their end. -/
theorem exec_bind_eq_ok {m : Program ε σ α} {f : α → Program ε σ β} {s s' : σ} {b : β}
    (h : exec (m >>= f) s = (.ok b, s')) :
    ∃ a s1, exec m s = (.ok a, s1) ∧ exec (f a) s1 = (.ok b, s') := by
  rw [exec_bind] at h
  rcases hm : exec m s with ⟨r, s1⟩
  rw [hm] at h
  cases r with
  | ok a => exact ⟨a, s1, rfl, h⟩
  | error e => simp at h

/-- A part of the state whose program ends well. -/
theorem exec_zoom_eq_ok {view : σ → τ} {put : τ → σ → σ} {m : Program ε τ α} {s s' : σ} {a : α}
    (h : exec (zoom view put m) s = (.ok a, s')) :
    ∃ t, exec m (view s) = (.ok a, t) ∧ s' = put t s := by
  rw [exec_zoom] at h
  obtain ⟨hresult, hstate⟩ := Prod.mk.inj h
  exact ⟨(exec m (view s)).2, Prod.ext hresult rfl, hstate.symm⟩

/-! ## Invariants -/

/-- A run of `m` keeps `I`, whether it ends or stops early, and its result satisfies `Q`. -/
def Keeps (I : σ → Prop) (m : Program ε σ α) (Q : α → Prop) : Prop :=
  ∀ s, I s → I (exec m s).2 ∧ ∀ a, (exec m s).1 = .ok a → Q a

section Keeps

variable {I : σ → Prop} {Q : α → Prop} {Q' : β → Prop}

theorem keeps_pure {a : α} (h : Q a) : Keeps I (pure a : Program ε σ α) Q := by
  intro s hs
  exact ⟨hs, by rintro _ ⟨⟩; exact h⟩

theorem keeps_throw (e : ε) : Keeps I (throw e : Program ε σ α) Q := by
  intro s hs
  exact ⟨hs, by rintro _ ⟨⟩⟩

theorem keeps_asks {f : σ → α} (h : ∀ s, I s → Q (f s)) :
    Keeps I (asks f : Program ε σ α) Q := by
  intro s hs
  exact ⟨hs, by rintro _ ⟨⟩; exact h s hs⟩

theorem keeps_modify {f : σ → σ} (h : ∀ s, I s → I (f s)) :
    Keeps I (modify f : Program ε σ PUnit) (fun _ => True) := by
  intro s hs
  exact ⟨h s hs, fun _ _ => trivial⟩

theorem keeps_unpolled (m : Program ε σ α) : Keeps I (unpolled m) (fun _ => True) := by
  intro s hs
  exact ⟨hs, fun _ _ => trivial⟩

theorem Keeps.bind {m : Program ε σ α} {f : α → Program ε σ β} (hm : Keeps I m Q)
    (hf : ∀ a, Q a → Keeps I (f a) Q') : Keeps I (m >>= f) Q' := by
  intro s hs
  obtain ⟨h1, h2⟩ := hm s hs
  rw [exec_bind]
  rcases hr : exec m s with ⟨r, s'⟩
  rw [hr] at h1 h2
  cases r with
  | ok a => exact hf a (h2 a rfl) s' h1
  | error e => exact ⟨h1, by rintro _ ⟨⟩⟩

theorem Keeps.mono {R : α → Prop} {m : Program ε σ α} (hm : Keeps I m Q)
    (h : ∀ a, Q a → R a) : Keeps I m R :=
  fun s hs => ⟨(hm s hs).1, fun a ha => h a ((hm s hs).2 a ha)⟩

theorem Keeps.run {m : Program ε σ α} (hm : Keeps I m Q) {s : σ} (hs : I s) : I (exec m s).2 :=
  (hm s hs).1

/-- The result of the first part is not looked at. -/
theorem Keeps.andThen {m : Program ε σ α} {f : α → Program ε σ β} (hm : Keeps I m Q)
    (hf : ∀ a, Keeps I (f a) Q') : Keeps I (m >>= f) Q' :=
  hm.bind fun a _ => hf a

/-- A first part that keeps `I`, before a second part that goes from `I` to `J`. -/
theorem Keeps.before {J : σ → Prop} {m : Program ε σ α} {f : α → Program ε σ β}
    (hm : Keeps I m Q) (hstop : ∀ s, I s → J s)
    (hf : ∀ a, Q a → ∀ s, I s → J (exec (f a) s).2) (s : σ) (hs : I s) :
    J (exec (m >>= f) s).2 := by
  obtain ⟨h1, h2⟩ := hm s hs
  rw [exec_bind]
  rcases hr : exec m s with ⟨r, s'⟩
  rw [hr] at h1 h2
  cases r with
  | ok a => exact hf a (h2 a rfl) s' h1
  | error e => exact hstop s' h1

theorem Keeps.ignore {caught : ε → Bool} {m : Program ε σ α} (hm : Keeps I m Q) :
    Keeps I (ignore caught m) (fun _ => True) := by
  intro s hs
  rw [exec_ignore_state]
  exact ⟨hm.run hs, fun _ _ => trivial⟩

theorem keeps_forM {f : α → Program ε σ PUnit} (xs : List α)
    (h : ∀ x ∈ xs, Keeps I (f x) (fun _ => True)) : Keeps I (xs.forM f) (fun _ => True) := by
  induction xs with
  | nil => exact keeps_pure trivial
  | cons x xs ih =>
    exact (h x (by simp)).andThen fun _ => ih fun y hy => h y (by simp [hy])

theorem keeps_mapM {f : α → Program ε σ β} (xs : List α)
    (h : ∀ x ∈ xs, Keeps I (f x) (fun _ => True)) : Keeps I (xs.mapM f) (fun _ => True) := by
  induction xs with
  | nil => exact keeps_pure trivial
  | cons x xs ih =>
    rw [List.mapM_cons]
    refine (h x (by simp)).andThen fun b => ?_
    exact (ih fun y hy => h y (by simp [hy])).andThen fun _ => keeps_pure trivial

theorem keeps_filterAuxM {P : α → Prop} {f : α → Program ε σ Bool} (xs acc : List α)
    (h : ∀ x ∈ xs, Keeps I (f x) (fun b => b = true → P x)) :
    Keeps I (xs.filterAuxM f acc) (fun ys => ∀ y ∈ ys, y ∈ acc ∨ (y ∈ xs ∧ P y)) := by
  induction xs generalizing acc with
  | nil => exact keeps_pure fun y hy => .inl hy
  | cons x xs ih =>
    refine (h x (by simp)).bind fun b hb => ?_
    refine (ih _ fun y hy => h y (by simp [hy])).mono fun ys hys y hy => ?_
    rcases hys y hy with hacc | ⟨hmem, hP⟩
    · cases b with
      | false => exact .inl hacc
      | true =>
        rcases List.mem_cons.mp hacc with rfl | hacc
        · exact .inr ⟨by simp, hb rfl⟩
        · exact .inl hacc
    · exact .inr ⟨by simp [hmem], hP⟩

/-- A filter gives elements of its list that passed the test. -/
theorem keeps_filterM_mem {P : α → Prop} {f : α → Program ε σ Bool} (xs : List α)
    (h : ∀ x ∈ xs, Keeps I (f x) (fun b => b = true → P x)) :
    Keeps I (xs.filterM f) (fun ys => ∀ y ∈ ys, y ∈ xs ∧ P y) := by
  refine (keeps_filterAuxM xs [] h).bind fun ys hys => keeps_pure fun y hy => ?_
  exact (hys y (List.mem_reverse.mp hy)).resolve_left (by simp)

theorem keeps_filterM {f : α → Program ε σ Bool} (xs : List α)
    (h : ∀ x ∈ xs, Keeps I (f x) (fun _ => True)) : Keeps I (xs.filterM f) (fun _ => True) :=
  (keeps_filterM_mem (P := fun _ => True) xs fun x hx => (h x hx).mono fun _ _ _ => trivial).mono
    fun _ _ => trivial

/-- What each turn keeps of the accumulator, the loop does. -/
theorem keeps_foldlM_acc {f : β → α → Program ε σ β} (xs : List α) {b : β} (hb : Q' b)
    (h : ∀ b, Q' b → ∀ x ∈ xs, Keeps I (f b x) Q') : Keeps I (xs.foldlM f b) Q' := by
  induction xs generalizing b with
  | nil => exact keeps_pure hb
  | cons x xs ih =>
    rw [List.foldlM_cons]
    exact (h b hb x (by simp)).bind fun b' hb' => ih hb' fun c hc y hy => h c hc y (by simp [hy])

theorem keeps_foldlM {f : β → α → Program ε σ β} (xs : List α) (b : β)
    (h : ∀ b, ∀ x ∈ xs, Keeps I (f b x) (fun _ => True)) :
    Keeps I (xs.foldlM f b) (fun _ => True) :=
  keeps_foldlM_acc xs trivial fun b _ => h b

end Keeps

/-! ## Runs that end -/

/-- From every state with `I` the run of `m` ends, with `I` again and a result in `Q`. -/
def Ends (I : σ → Prop) (m : Program ε σ α) (Q : α → Prop) : Prop :=
  ∀ s, I s → ∃ a s', exec m s = (.ok a, s') ∧ I s' ∧ Q a

section Ends

variable {I : σ → Prop} {Q : α → Prop} {Q' : β → Prop}

theorem ends_pure {a : α} (h : Q a) : Ends I (pure a : Program ε σ α) Q := by
  intro s hs
  exact ⟨a, s, rfl, hs, h⟩

theorem ends_asks {f : σ → α} (h : ∀ s, I s → Q (f s)) :
    Ends I (asks f : Program ε σ α) Q := by
  intro s hs
  exact ⟨f s, s, rfl, hs, h s hs⟩

theorem Ends.bind {m : Program ε σ α} {f : α → Program ε σ β} (hm : Ends I m Q)
    (hf : ∀ a, Q a → Ends I (f a) Q') : Ends I (m >>= f) Q' := by
  intro s hs
  obtain ⟨a, s1, h1, hs1, ha⟩ := hm s hs
  obtain ⟨b, s2, h2, hs2, hb⟩ := hf a ha s1 hs1
  exact ⟨b, s2, by rw [exec_bind_ok h1, h2], hs2, hb⟩

/-- The first part gives one value. -/
theorem Ends.bindEq {m : Program ε σ α} {f : α → Program ε σ β} {a : α} (hm : Ends I m (· = a))
    (hf : Ends I (f a) Q') : Ends I (m >>= f) Q' := by
  refine hm.bind ?_
  rintro _ rfl
  exact hf

/-- The run of a program that gives one value. -/
theorem Ends.exec {m : Program ε σ α} {a : α} (hm : Ends I m (· = a)) {s : σ} (hs : I s) :
    ∃ s', exec m s = (.ok a, s') ∧ I s' := by
  obtain ⟨b, s', h, hs', hb⟩ := hm s hs
  exact ⟨s', by rw [h, hb], hs'⟩

theorem Ends.mono {R : α → Prop} {m : Program ε σ α} (hm : Ends I m Q) (h : ∀ a, Q a → R a) :
    Ends I m R := by
  intro s hs
  obtain ⟨a, s', h1, hs', ha⟩ := hm s hs
  exact ⟨a, s', h1, hs', h a ha⟩

theorem ends_mapM {f : α → Program ε σ β} {g : α → β} (xs : List α)
    (h : ∀ x ∈ xs, Ends I (f x) (· = g x)) : Ends I (xs.mapM f) (· = xs.map g) := by
  induction xs with
  | nil => exact ends_pure rfl
  | cons x xs ih =>
    rw [List.mapM_cons]
    refine (h x (by simp)).bindEq ?_
    refine (ih fun y hy => h y (by simp [hy])).bindEq ?_
    exact ends_pure rfl

theorem ends_filterAuxM {f : α → Program ε σ Bool} {g : α → Bool} (xs acc : List α)
    (h : ∀ x ∈ xs, Ends I (f x) (· = g x)) :
    Ends I (xs.filterAuxM f acc) (· = (xs.filter g).reverse ++ acc) := by
  induction xs generalizing acc with
  | nil => exact ends_pure rfl
  | cons x xs ih =>
    refine (h x (by simp)).bindEq ?_
    refine (ih _ fun y hy => h y (by simp [hy])).mono ?_
    rintro _ rfl
    cases hg : g x <;> simp [hg]

theorem ends_filterM {f : α → Program ε σ Bool} {g : α → Bool} (xs : List α)
    (h : ∀ x ∈ xs, Ends I (f x) (· = g x)) : Ends I (xs.filterM f) (· = xs.filter g) := by
  refine (ends_filterAuxM xs [] h).bindEq ?_
  exact ends_pure (by simp)

theorem ends_foldlM {f : β → α → Program ε σ β} {g : β → α → β} (xs : List α) (b : β)
    (h : ∀ b, ∀ x ∈ xs, Ends I (f b x) (· = g b x)) :
    Ends I (xs.foldlM f b) (· = xs.foldl g b) := by
  induction xs generalizing b with
  | nil => exact ends_pure rfl
  | cons x xs ih =>
    rw [List.foldlM_cons]
    exact (h b x (by simp)).bindEq (ih _ fun c y hy => h c y (by simp [hy]))

theorem ends_allM {f : α → Program ε σ Bool} {g : α → Bool} (xs : List α)
    (h : ∀ x ∈ xs, Ends I (f x) (· = g x)) : Ends I (xs.allM f) (· = xs.all g) := by
  induction xs with
  | nil => exact ends_pure rfl
  | cons x xs ih =>
    refine (h x (by simp)).bindEq ?_
    cases hg : g x with
    | false => exact ends_pure (by simp [hg])
    | true => exact (ih fun y hy => h y (by simp [hy])).mono fun _ hb => by simp [hb, hg]

end Ends

/-! ## Programs that look something up -/

/-- From every state with `I` the program gives what `o` holds, and fails when it holds nothing;
`I` stands either way. -/
def Finds (I : σ → Prop) (m : Program ε σ α) (o : Option α) : Prop :=
  ∀ s, I s → I (exec m s).2 ∧ (exec m s).1.toOption = o

section Finds

variable {I : σ → Prop}

theorem finds_pure (a : α) : Finds I (pure a : Program ε σ α) (some a) := by
  intro s hs
  exact ⟨hs, rfl⟩

theorem Finds.bind {m : Program ε σ α} {f : α → Program ε σ β} {o : Option α}
    {g : α → Option β} (hm : Finds I m o) (hf : ∀ a, o = some a → Finds I (f a) (g a)) :
    Finds I (m >>= f) (o.bind g) := by
  intro s hs
  obtain ⟨h1, h2⟩ := hm s hs
  cases h : exec m s with
  | mk r s' =>
    rw [h] at h1 h2
    cases r with
    | error e =>
      have ho : o = none := h2.symm
      rw [exec_bind_error h, ho]
      exact ⟨h1, rfl⟩
    | ok a =>
      have ho : o = some a := h2.symm
      rw [exec_bind_ok h, ho]
      exact hf a ho s' h1

theorem finds_foldlM {f : β → α → Program ε σ β} {g : β → α → Option β} (xs : List α) (b : β)
    (h : ∀ b, ∀ x ∈ xs, Finds I (f b x) (g b x)) :
    Finds I (xs.foldlM f b) (xs.foldlM g b) := by
  induction xs generalizing b with
  | nil => exact finds_pure b
  | cons x xs ih =>
    rw [List.foldlM_cons, List.foldlM_cons]
    apply (h b x (by simp)).bind
    intro c _
    exact ih c fun c y hy => h c y (by simp [hy])

theorem finds_mapM {f : α → Program ε σ β} {g : α → Option β} (xs : List α)
    (h : ∀ x ∈ xs, Finds I (f x) (g x)) : Finds I (xs.mapM f) (xs.mapM g) := by
  induction xs with
  | nil => exact finds_pure []
  | cons x xs ih =>
    rw [List.mapM_cons, List.mapM_cons]
    apply (h x (by simp)).bind
    intro b _
    apply (ih fun y hy => h y (by simp [hy])).bind
    intro bs _
    exact finds_pure _

/-- A filter whose test gives an answer for the elements with `found`. -/
theorem finds_filterM {f : α → Program ε σ Bool} {g : α → Bool} {found : α → Prop}
    [DecidablePred found] (xs : List α)
    (h : ∀ x ∈ xs, Finds I (f x) (if found x then some (g x) else none)) :
    Finds I (xs.filterM f) (if ∀ x ∈ xs, found x then some (xs.filter g) else none) := by
  have haux : ∀ (xs acc : List α),
      (∀ x ∈ xs, Finds I (f x) (if found x then some (g x) else none)) →
      Finds I (xs.filterAuxM f acc)
        (if ∀ x ∈ xs, found x then some ((xs.filter g).reverse ++ acc) else none) := by
    intro xs
    induction xs with
    | nil => intro acc _; simpa using finds_pure acc
    | cons x xs ih =>
      intro acc h
      have hx := h x (by simp)
      by_cases hfound : found x
      · rw [if_pos hfound] at hx
        have hrest : Finds I ((x :: xs).filterAuxM f acc) ((some (g x)).bind fun _ =>
            if ∀ y ∈ xs, found y then some (((x :: xs).filter g).reverse ++ acc) else none) := by
          apply hx.bind
          rintro _ ⟨⟩
          have hxs := ih (bif g x then x :: acc else acc) fun y hy => h y (by simp [hy])
          cases hg : g x <;> simpa [hg] using hxs
        simpa [hfound] using hrest
      · rw [if_neg hfound] at hx
        have hrest : Finds I ((x :: xs).filterAuxM f acc)
            ((none : Option Bool).bind fun _ => none) := by
          apply hx.bind
          rintro _ ⟨⟩
        simpa [hfound] using hrest
  have hall : Finds I (xs.filterM f) ((if ∀ x ∈ xs, found x then some ((xs.filter g).reverse ++ [])
      else none).bind fun ys => some ys.reverse) := (haux xs [] h).bind fun ys _ => finds_pure _
  by_cases hfound : ∀ x ∈ xs, found x
  · rw [if_pos hfound] at hall ⊢
    simpa using hall
  · rw [if_neg hfound] at hall ⊢
    exact hall

end Finds

/-! ## Faults that do not happen -/

/-- From every state with `I` the run of `m` leaves one with `J`; its result is in `Q`, and it
stops early with a fault in `F` only. -/
def Guards (F : ε → Prop) (I J : σ → Prop) (m : Program ε σ α) (Q : α → Prop) : Prop :=
  ∀ s, I s → J (exec m s).2 ∧ (∀ a, (exec m s).1 = .ok a → Q a) ∧
    ∀ e, (exec m s).1 = .error e → F e

section Guards

variable {F : ε → Prop} {I J K : σ → Prop} {Q : α → Prop} {Q' : β → Prop}

theorem guards_pure {a : α} (h : Q a) : Guards F I I (pure a : Program ε σ α) Q := by
  intro s hs
  exact ⟨hs, by rintro _ ⟨⟩; exact h, by rintro _ ⟨⟩⟩

theorem guards_throw {e : ε} (h : F e) : Guards F I I (throw e : Program ε σ α) Q := by
  intro s hs
  exact ⟨hs, by rintro _ ⟨⟩, by rintro _ ⟨⟩; exact h⟩

theorem guards_asks {f : σ → α} (h : ∀ s, I s → Q (f s)) :
    Guards F I I (asks f : Program ε σ α) Q := by
  intro s hs
  exact ⟨hs, by rintro _ ⟨⟩; exact h s hs, by rintro _ ⟨⟩⟩

theorem guards_modify {f : σ → σ} (h : ∀ s, I s → J (f s)) :
    Guards F I J (modify f : Program ε σ PUnit) (fun _ => True) := by
  intro s hs
  exact ⟨h s hs, fun _ _ => trivial, by rintro _ ⟨⟩⟩

/-- The second part may leave less than the first; what it leaves must hold between them. -/
theorem Guards.bind {m : Program ε σ α} {f : α → Program ε σ β} (hm : Guards F I J m Q)
    (hstop : ∀ s, J s → K s) (hf : ∀ a, Q a → Guards F J K (f a) Q') :
    Guards F I K (m >>= f) Q' := by
  intro s hs
  obtain ⟨h1, h2, h3⟩ := hm s hs
  rw [exec_bind]
  rcases hr : exec m s with ⟨r, s'⟩
  rw [hr] at h1 h2 h3
  cases r with
  | ok a => exact hf a (h2 a rfl) s' h1
  | error e => exact ⟨hstop s' h1, by rintro _ ⟨⟩, by rintro _ ⟨⟩; exact h3 e rfl⟩

/-- Both parts keep one condition. -/
theorem Guards.andThen {m : Program ε σ α} {f : α → Program ε σ β} (hm : Guards F I I m Q)
    (hf : ∀ a, Q a → Guards F I I (f a) Q') : Guards F I I (m >>= f) Q' :=
  hm.bind (fun _ h => h) hf

theorem Guards.mono {I' J' : σ → Prop} {R : α → Prop} {m : Program ε σ α}
    (hm : Guards F I J m Q) (hI : ∀ s, I' s → I s) (hJ : ∀ s, J s → J' s) (h : ∀ a, Q a → R a) :
    Guards F I' J' m R := by
  intro s hs
  obtain ⟨h1, h2, h3⟩ := hm s (hI s hs)
  exact ⟨hJ _ h1, fun a ha => h a (h2 a ha), h3⟩

theorem guards_forM {f : α → Program ε σ PUnit} (xs : List α)
    (h : ∀ x ∈ xs, Guards F I I (f x) (fun _ => True)) :
    Guards F I I (xs.forM f) (fun _ => True) := by
  induction xs with
  | nil => exact guards_pure trivial
  | cons x xs ih =>
    exact (h x (by simp)).andThen fun _ _ => ih fun y hy => h y (by simp [hy])

theorem guards_mapM {f : α → Program ε σ β} (xs : List α)
    (h : ∀ x ∈ xs, Guards F I I (f x) (fun _ => True)) :
    Guards F I I (xs.mapM f) (fun _ => True) := by
  induction xs with
  | nil => exact guards_pure trivial
  | cons x xs ih =>
    rw [List.mapM_cons]
    refine (h x (by simp)).andThen fun b _ => ?_
    exact (ih fun y hy => h y (by simp [hy])).andThen fun _ _ => guards_pure trivial

theorem guards_allM {f : α → Program ε σ Bool} (xs : List α)
    (h : ∀ x ∈ xs, Guards F I I (f x) (fun _ => True)) :
    Guards F I I (xs.allM f) (fun _ => True) := by
  induction xs with
  | nil => exact guards_pure trivial
  | cons x xs ih =>
    refine (h x (by simp)).andThen fun b _ => ?_
    cases b
    · exact guards_pure trivial
    · exact ih fun y hy => h y (by simp [hy])

theorem guards_filterAuxM {f : α → Program ε σ Bool} (xs acc : List α)
    (h : ∀ x ∈ xs, Guards F I I (f x) (fun _ => True)) :
    Guards F I I (xs.filterAuxM f acc) (fun ys => ys ⊆ xs ++ acc) := by
  induction xs generalizing acc with
  | nil => exact guards_pure (List.Subset.refl _)
  | cons x xs ih =>
    refine (h x (by simp)).andThen fun b _ => ?_
    refine (ih _ fun y hy => h y (by simp [hy])).mono (fun _ h => h) (fun _ h => h) fun ys hys => ?_
    intro y hy
    have hmem := hys hy
    cases b <;> simp only [List.mem_append, List.mem_cons, cond_true, cond_false] at hmem ⊢ <;> grind

/-- A filter gives elements of its list. -/
theorem guards_filterM {f : α → Program ε σ Bool} (xs : List α)
    (h : ∀ x ∈ xs, Guards F I I (f x) (fun _ => True)) :
    Guards F I I (xs.filterM f) (fun ys => ys ⊆ xs) := by
  refine (guards_filterAuxM xs [] h).andThen fun ys hys => guards_pure fun y hy => ?_
  simpa using hys (List.mem_reverse.mp hy)

theorem guards_foldlM {f : β → α → Program ε σ β} (xs : List α) (b : β)
    (h : ∀ b, ∀ x ∈ xs, Guards F I I (f b x) (fun _ => True)) :
    Guards F I I (xs.foldlM f b) (fun _ => True) := by
  induction xs generalizing b with
  | nil => exact guards_pure trivial
  | cons x xs ih =>
    rw [List.foldlM_cons]
    exact (h b x (by simp)).andThen fun b' _ => ih b' fun c y hy => h c y (by simp [hy])

end Guards

/-! ## Runs that succeed -/

/-- The run of `m` from `s` ends with a result. -/
def Succeeds (m : Program ε σ α) (s : σ) : Prop := ∃ a s', exec m s = (.ok a, s')

section Succeeds

theorem succeeds_of_eq {m : Program ε σ α} {s s' : σ} {a : α} (h : exec m s = (.ok a, s')) :
    Succeeds m s :=
  ⟨a, s', h⟩

theorem not_succeeds_of_eq {m : Program ε σ α} {s s' : σ} {e : ε}
    (h : exec m s = (.error e, s')) : ¬ Succeeds m s := by
  rintro ⟨a, s'', h'⟩
  rw [h] at h'
  cases h'

/-- A program that does not succeed stops with a fault. -/
theorem stops_of_not_succeeds {m : Program ε σ α} {s : σ} (h : ¬ Succeeds m s) :
    ∃ e s', exec m s = (.error e, s') := by
  rcases hr : exec m s with ⟨r, s'⟩
  cases r with
  | ok a => exact absurd ⟨a, s', hr⟩ h
  | error e => exact ⟨e, s', rfl⟩

/-- A sequence succeeds as its second part does, where the first one ends. -/
theorem succeeds_bind {m : Program ε σ α} {f : α → Program ε σ β} {s s' : σ} {a : α}
    (h : exec m s = (.ok a, s')) : Succeeds (m >>= f) s ↔ Succeeds (f a) s' := by
  unfold Succeeds
  rw [exec_bind_ok h]

theorem not_succeeds_bind {m : Program ε σ α} {f : α → Program ε σ β} {s : σ}
    (h : ¬ Succeeds m s) : ¬ Succeeds (m >>= f) s := by
  obtain ⟨e, s', hr⟩ := stops_of_not_succeeds h
  exact not_succeeds_of_eq (exec_bind_error hr)

/-- A value made of the result adds no fault. -/
theorem succeeds_bind_pure {m : Program ε σ α} {f : α → β} {s : σ} :
    Succeeds (m >>= fun a => pure (f a)) s ↔ Succeeds m s := by
  by_cases h : Succeeds m s
  · obtain ⟨a, s', hr⟩ := h
    rw [succeeds_bind hr]
    exact iff_of_true (succeeds_of_eq (exec_pure _ _)) (succeeds_of_eq hr)
  · exact iff_of_false (not_succeeds_bind h) h

theorem succeeds_zoom {view : σ → τ} {put : τ → σ → σ} {m : Program ε τ α} {s : σ} :
    Succeeds (zoom view put m) s ↔ Succeeds m (view s) := by
  unfold Succeeds
  rw [exec_zoom]
  rcases exec m (view s) with ⟨e | a, t⟩ <;> simp

theorem succeeds_forM_cons {m : α → Program ε σ PUnit} {x : α} (xs : List α) {s s' : σ}
    (h : exec (m x) s = (.ok ⟨⟩, s')) : Succeeds ((x :: xs).forM m) s ↔ Succeeds (xs.forM m) s' :=
  succeeds_bind h

theorem not_succeeds_forM_cons {m : α → Program ε σ PUnit} {x : α} (xs : List α) {s : σ}
    (h : ¬ Succeeds (m x) s) : ¬ Succeeds ((x :: xs).forM m) s :=
  not_succeeds_bind h

end Succeeds

/-! ## Outcomes -/

/-- From `s` the program ends with a result and a state in `Q`, or stops with a fault and a state
in `E`. -/
def Does (m : Program ε σ α) (s : σ) (Q : α → σ → Prop) (E : ε → σ → Prop) : Prop :=
  (∀ a s', exec m s = (.ok a, s') → Q a s') ∧ ∀ e s', exec m s = (.error e, s') → E e s'

section Does

variable {m : Program ε σ α} {f : α → Program ε σ β} {s : σ} {Q : α → σ → Prop}
  {R : β → σ → Prop} {E : ε → σ → Prop}

theorem does_pure {a : α} (h : Q a s) : Does (pure a : Program ε σ α) s Q E := by
  refine ⟨?_, by rintro e s' ⟨⟩⟩
  rintro a s' ⟨⟩
  exact h

theorem does_throw {e : ε} (h : E e s) : Does (throw e : Program ε σ α) s Q E := by
  refine ⟨by rintro a s' ⟨⟩, ?_⟩
  rintro e s' ⟨⟩
  exact h

theorem does_modify {g : σ → σ} {Q : PUnit → σ → Prop} (h : Q ⟨⟩ (g s)) :
    Does (modify g : Program ε σ PUnit) s Q E := by
  refine ⟨?_, by rintro e s' ⟨⟩⟩
  rintro a s' ⟨⟩
  exact h

theorem Does.bind (hm : Does m s (fun a s' => Does (f a) s' R E) E) : Does (m >>= f) s R E := by
  have hrun := exec_bind m f s
  rcases hr : exec m s with ⟨r, s'⟩
  rw [hr] at hrun
  cases r with
  | ok a =>
    obtain ⟨hok, herror⟩ := hm.1 a s' hr
    exact ⟨fun b s'' h => hok b s'' (hrun.symm.trans h),
      fun e s'' h => herror e s'' (hrun.symm.trans h)⟩
  | error e =>
    refine ⟨fun b s'' h => ?_, fun e' s'' h => ?_⟩
    · cases hrun.symm.trans h
    · cases hrun.symm.trans h
      exact hm.2 e s' hr

theorem does_ite {c : Prop} [Decidable c] {m' : Program ε σ α} (hm : c → Does m s Q E)
    (hm' : ¬ c → Does m' s Q E) : Does (if c then m else m') s Q E := by
  by_cases h : c
  · rw [if_pos h]
    exact hm h
  · rw [if_neg h]
    exact hm' h

theorem Does.mono {Q' : α → σ → Prop} {E' : ε → σ → Prop} (hm : Does m s Q' E')
    (hQ : ∀ a s', Q' a s' → Q a s') (hE : ∀ e s', E' e s' → E e s') : Does m s Q E :=
  ⟨fun a s' h => hQ a s' (hm.1 a s' h), fun e s' h => hE e s' (hm.2 e s' h)⟩

/-- What both parts keep, where the first one stops, may be told of the whole. -/
theorem Guards.does {F : ε → Prop} {I : σ → Prop} {P : α → Prop} (hm : Guards F I I m P)
    (hs : I s) (hQ : ∀ a s', I s' → P a → Q a s') (hE : ∀ e s', I s' → F e → E e s') :
    Does m s Q E := by
  obtain ⟨hstate, hok, herror⟩ := hm s hs
  refine ⟨fun a s' h => ?_, fun e s' h => ?_⟩
  · rw [h] at hstate hok
    exact hQ a s' hstate (hok a rfl)
  · rw [h] at hstate herror
    exact hE e s' hstate (herror e rfl)

/-- A first part that only looks, before the rest. -/
theorem Guards.thenDoes {F : ε → Prop} {I : σ → Prop} {P : α → Prop} (hm : Guards F I I m P)
    (hs : I s) (hf : ∀ a s', I s' → P a → Does (f a) s' R E)
    (hE : ∀ e s', I s' → F e → E e s') : Does (m >>= f) s R E :=
  (hm.does hs hf hE).bind

end Does

end Program
