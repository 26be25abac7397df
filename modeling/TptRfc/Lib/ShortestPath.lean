import Mathlib

/-!
# Shortest paths by settling nodes in order of cost

Dijkstra's search with lazy deletion over an arbitrary graph, which may have parallel edges, loops
and edges of cost zero.
-/

namespace TptRfc.Lib

open List

noncomputable section

open Classical

variable {α : Type}

inductive Path (edges : α → List (α × ℕ)) (root : α) : α → List α → ℕ → Prop where
  | root : Path edges root root [root] 0
  | snoc {u v : α} {p : List α} {c w : ℕ} :
      Path edges root u p c → (v, w) ∈ edges u → Path edges root v (p ++ [v]) (c + w)

theorem Path.ne_nil {edges : α → List (α × ℕ)} {root v : α} {p : List α} {c : ℕ}
    (h : Path edges root v p c) : p ≠ [] := by
  cases h <;> simp

theorem Path.head? {edges : α → List (α × ℕ)} {root v : α} {p : List α} {c : ℕ}
    (h : Path edges root v p c) : p.head? = some root := by
  induction h with
  | root => rfl
  | snoc hp _ ih => rw [head?_append_of_ne_nil _ hp.ne_nil, ih]

structure Label (α : Type) where
  cost : ℕ
  path : List α

structure Search (α : Type) where
  label : α → Option (Label α)
  settled : List α
  queue : List (ℕ × α)

namespace Search

def start (root : α) : Search α where
  label := Function.update (fun _ => none) root (some ⟨0, [root]⟩)
  settled := []
  queue := [(0, root)]

def Improves (s : Search α) (l : Label α) (e : α × ℕ) : Prop :=
  e.1 ∉ s.settled ∧ ∀ l', s.label e.1 = some l' → l.cost + e.2 < l'.cost

def take (s : Search α) (l : Label α) (e : α × ℕ) : Search α where
  label := Function.update s.label e.1 (some ⟨l.cost + e.2, l.path ++ [e.1]⟩)
  settled := s.settled
  queue := (l.cost + e.2, e.1) :: s.queue

def relax (s : Search α) (l : Label α) (e : α × ℕ) : Search α :=
  if s.Improves l e then s.take l e else s

def expand (s : Search α) (l : Label α) (es : List (α × ℕ)) : Search α :=
  es.foldl (fun s e => s.relax l e) s

def settle (s : Search α) (u : α) (queue : List (ℕ × α)) : Search α where
  label := s.label
  settled := s.settled ++ [u]
  queue := queue

inductive Step (edges : α → List (α × ℕ)) : Search α → Search α → Prop where
  | skip {s : Search α} {d : ℕ} {u : α} {queue : List (ℕ × α)}
      (hpop : s.queue.Perm ((d, u) :: queue)) (hold : u ∈ s.settled) :
      Step edges s { s with queue := queue }
  | visit {s : Search α} {d : ℕ} {u : α} {queue : List (ℕ × α)} {l : Label α}
      (hpop : s.queue.Perm ((d, u) :: queue)) (hmin : ∀ e ∈ queue, d ≤ e.1)
      (hnew : u ∉ s.settled) (hlabel : s.label u = some l) :
      Step edges s ((s.settle u queue).expand l (edges u))

/-! ## The invariant -/

structure Inv (edges : α → List (α × ℕ)) (root : α) (u : α) (pending : List (α × ℕ))
    (s : Search α) : Prop where
  nodup : s.settled.Nodup
  root_label : s.label root = some ⟨0, [root]⟩
  /-- A label extends the label of a settled node by an edge. -/
  extends_settled : ∀ v l, s.label v = some l → v = root ∨
    ∃ x ∈ s.settled, ∃ lx w, s.label x = some lx ∧ (v, w) ∈ edges x ∧
      l = ⟨lx.cost + w, lx.path ++ [v]⟩
  settled_label : ∀ x ∈ s.settled, ∃ l, s.label x = some l
  /-- A candidate costs at least the label of its node. -/
  queue_label : ∀ d v, (d, v) ∈ s.queue → ∃ l, s.label v = some l ∧ l.cost ≤ d
  /-- The label of an unsettled node is a candidate. -/
  label_queue : ∀ v l, s.label v = some l → v ∉ s.settled → (l.cost, v) ∈ s.queue
  /-- Nothing in the queue is cheaper than a settled node. -/
  settled_le : ∀ x ∈ s.settled, ∀ l, s.label x = some l → ∀ e ∈ s.queue, l.cost ≤ e.1
  sorted : s.settled.Pairwise fun x y =>
    ∀ lx ly, s.label x = some lx → s.label y = some ly → lx.cost ≤ ly.cost
  relaxed : ∀ x ∈ s.settled, ∀ lx, s.label x = some lx → ∀ v w, (v, w) ∈ edges x →
    (x = u ∧ (v, w) ∈ pending) ∨ ∃ l, s.label v = some l ∧ l.cost ≤ lx.cost + w

variable {edges : α → List (α × ℕ)} {root u : α} {s s' : Search α}

theorem label_start_self (root : α) : (start root).label root = some ⟨0, [root]⟩ := by
  simp only [start, Function.update_self]

variable {v x : α} {l : Label α} {d n : ℕ} {queue : List (ℕ × α)} {e : α × ℕ} {nodes : Finset α}

theorem label_start_of_ne {root : α} (h : v ≠ root) : (start root).label v = none := by
  simp only [start, Function.update_of_ne h]

theorem of_label_start {root : α} (h : (start root).label v = some l) :
    v = root ∧ l = ⟨0, [root]⟩ := by
  by_cases hv : v = root
  · subst hv
    rw [label_start_self] at h
    exact ⟨rfl, (Option.some.inj h).symm⟩
  · rw [label_start_of_ne hv] at h
    cases h

theorem inv_start (edges : α → List (α × ℕ)) (root u : α) :
    Inv edges root u [] (start root) where
  nodup := nodup_nil
  root_label := label_start_self root
  extends_settled := fun v l hl => Or.inl (of_label_start hl).1
  settled_label := by simp [start]
  queue_label := by
    intro d v hmem
    simp only [start, mem_singleton, Prod.mk.injEq] at hmem
    obtain ⟨rfl, rfl⟩ := hmem
    exact ⟨⟨0, [v]⟩, label_start_self v, le_rfl⟩
  label_queue := by
    intro v l hl _
    obtain ⟨rfl, rfl⟩ := of_label_start hl
    exact mem_singleton_self _
  settled_le := by simp [start]
  sorted := by simp [start]
  relaxed := by simp [start]

theorem Inv.skip (h : Inv edges root u [] s)
    (hpop : s.queue.Perm ((d, v) :: queue)) (hold : v ∈ s.settled) :
    Inv edges root u [] { s with queue := queue } where
  nodup := h.nodup
  root_label := h.root_label
  extends_settled := h.extends_settled
  settled_label := h.settled_label
  queue_label := fun d v hmem =>
    h.queue_label d v (hpop.mem_iff.mpr (mem_cons_of_mem _ hmem))
  label_queue := by
    intro x l hl hx
    have hmem := hpop.mem_iff.mp (h.label_queue x l hl hx)
    rcases mem_cons.mp hmem with heq | hmem
    · cases heq
      exact absurd hold hx
    · exact hmem
  settled_le := fun x hx l hl e he =>
    h.settled_le x hx l hl e (hpop.mem_iff.mpr (mem_cons_of_mem _ he))
  sorted := h.sorted
  relaxed := h.relaxed

theorem Inv.cost_eq_of_pop (h : Inv edges root u [] s) (hpop : s.queue.Perm ((d, v) :: queue))
    (hmin : ∀ e ∈ queue, d ≤ e.1) (hnew : v ∉ s.settled) (hl : s.label v = some l) :
    l.cost = d := by
  obtain ⟨l', hl', hle⟩ := h.queue_label d v (hpop.mem_iff.mpr mem_cons_self)
  rw [hl] at hl'
  cases hl'
  have hmem := hpop.mem_iff.mp (h.label_queue v l hl hnew)
  rcases mem_cons.mp hmem with heq | hmem
  · exact congrArg Prod.fst heq
  · exact le_antisymm hle (hmin _ hmem)

theorem Inv.settle (h : Inv edges root u [] s) (hpop : s.queue.Perm ((d, v) :: queue))
    (hmin : ∀ e ∈ queue, d ≤ e.1) (hnew : v ∉ s.settled) (hl : s.label v = some l) :
    Inv edges root v (edges v) (s.settle v queue) where
  nodup := by
    rw [Search.settle, nodup_append]
    refine ⟨h.nodup, nodup_singleton v, ?_⟩
    rintro x hx y hy rfl
    exact hnew (by simpa using mem_singleton.mp hy ▸ hx)
  root_label := h.root_label
  extends_settled := by
    intro x lx hlx
    rcases h.extends_settled x lx hlx with hroot | ⟨y, hy, hrest⟩
    · exact Or.inl hroot
    · exact Or.inr ⟨y, mem_append_left _ hy, hrest⟩
  settled_label := by
    intro x hx
    rcases mem_append.mp hx with hx | hx
    · exact h.settled_label x hx
    · exact ⟨l, by rw [mem_singleton.mp hx]; exact hl⟩
  queue_label := fun d v hmem =>
    h.queue_label d v (hpop.mem_iff.mpr (mem_cons_of_mem _ hmem))
  label_queue := by
    intro x lx hlx hx
    simp only [Search.settle, mem_append, mem_singleton, not_or] at hx
    rcases mem_cons.mp (hpop.mem_iff.mp (h.label_queue x lx hlx hx.1)) with heq | hmem
    · exact absurd (congrArg Prod.snd heq) hx.2
    · exact hmem
  settled_le := by
    intro x hx lx hlx e he
    rcases mem_append.mp hx with hx | hx
    · exact h.settled_le x hx lx hlx e (hpop.mem_iff.mpr (mem_cons_of_mem _ he))
    · rw [mem_singleton.mp hx] at hlx
      rw [h.cost_eq_of_pop hpop hmin hnew hlx]
      exact hmin e he
  sorted := by
    rw [Search.settle, pairwise_append]
    refine ⟨h.sorted, pairwise_singleton _ _, ?_⟩
    intro x hx y hy lx ly hlx hly
    rw [mem_singleton.mp hy] at hly
    have hle := h.settled_le x hx lx hlx (d, v) (hpop.mem_iff.mpr mem_cons_self)
    rwa [h.cost_eq_of_pop hpop hmin hnew hly]
  relaxed := by
    intro x hx lx hlx y w hedge
    rcases mem_append.mp hx with hx | hx
    · rcases h.relaxed x hx lx hlx y w hedge with ⟨-, hnil⟩ | hdone
      · cases hnil
      · exact Or.inr hdone
    · rw [mem_singleton.mp hx] at hedge ⊢
      exact Or.inl ⟨rfl, hedge⟩

structure Visiting (u : α) (l : Label α) (s : Search α) : Prop where
  mem : u ∈ s.settled
  label : s.label u = some l
  cost_le : ∀ x ∈ s.settled, ∀ lx, s.label x = some lx → lx.cost ≤ l.cost

theorem label_take_of_ne (h : x ≠ e.1) : (s.take l e).label x = s.label x :=
  Function.update_of_ne h _ _

theorem label_take_self : (s.take l e).label e.1 = some ⟨l.cost + e.2, l.path ++ [e.1]⟩ := by
  simp only [take, Function.update_self]

theorem Improves.label_settled (h : s.Improves l e)
    (hx : x ∈ s.settled) : (s.take l e).label x = s.label x :=
  label_take_of_ne fun heq => h.1 (heq ▸ hx)

theorem Improves.label_le {v : α} {lv : Label α} {n : ℕ} (h : s.Improves l e)
    (hlv : s.label v = some lv) (hle : lv.cost ≤ n) :
    ∃ lv', (s.take l e).label v = some lv' ∧ lv'.cost ≤ n := by
  by_cases hv : v = e.1
  · subst hv
    exact ⟨_, label_take_self, ((h.2 lv hlv).le).trans hle⟩
  · exact ⟨lv, by rw [label_take_of_ne hv, hlv], hle⟩

theorem Visiting.take (h : Visiting u l s) (hi : s.Improves l e) :
    Visiting u l (s.take l e) where
  mem := h.mem
  label := by rw [hi.label_settled h.mem, h.label]
  cost_le := by
    intro x hx lx hlx
    rw [hi.label_settled hx] at hlx
    exact h.cost_le x hx lx hlx

theorem Visiting.relax (h : Visiting u l s) : Visiting u l (s.relax l e) := by
  rw [Search.relax]
  split_ifs with hi
  · exact h.take hi
  · exact h

theorem Inv.take {pending : List (α × ℕ)}
    (h : Inv edges root u (e :: pending) s) (hu : Visiting u l s) (hedge : e ∈ edges u)
    (hi : s.Improves l e) : Inv edges root u pending (s.take l e) where
  nodup := h.nodup
  root_label := by
    rw [label_take_of_ne, h.root_label]
    rintro rfl
    have := hi.2 _ h.root_label
    simp at this
  extends_settled := by
    intro v lv hlv
    by_cases hv : v = e.1
    · subst hv
      rw [label_take_self] at hlv
      cases hlv
      exact Or.inr ⟨u, hu.mem, l, e.2, by rw [hi.label_settled hu.mem, hu.label], hedge, rfl⟩
    · rw [label_take_of_ne hv] at hlv
      rcases h.extends_settled v lv hlv with hroot | ⟨x, hx, lx, w, hlx, hrest⟩
      · exact Or.inl hroot
      · exact Or.inr ⟨x, hx, lx, w, by rw [hi.label_settled hx, hlx], hrest⟩
  settled_label := by
    intro x hx
    rw [hi.label_settled hx]
    exact h.settled_label x hx
  queue_label := by
    intro d v hmem
    rcases mem_cons.mp hmem with heq | hmem
    · cases heq
      exact ⟨_, label_take_self, le_rfl⟩
    · obtain ⟨lv, hlv, hle⟩ := h.queue_label d v hmem
      exact hi.label_le hlv hle
  label_queue := by
    intro v lv hlv hnew
    by_cases hv : v = e.1
    · subst hv
      rw [label_take_self] at hlv
      cases hlv
      exact mem_cons_self
    · rw [label_take_of_ne hv] at hlv
      exact mem_cons_of_mem _ (h.label_queue v lv hlv hnew)
  settled_le := by
    intro x hx lx hlx e' he'
    rw [hi.label_settled hx] at hlx
    rcases mem_cons.mp he' with rfl | he'
    · exact (hu.cost_le x hx lx hlx).trans (Nat.le_add_right _ _)
    · exact h.settled_le x hx lx hlx e' he'
  sorted := by
    refine h.sorted.imp_of_mem ?_
    intro x y hx hy hle
    rwa [hi.label_settled hx, hi.label_settled hy]
  relaxed := by
    intro x hx lx hlx v w hmem
    rw [hi.label_settled hx] at hlx
    rcases h.relaxed x hx lx hlx v w hmem with ⟨rfl, hpend⟩ | ⟨lv, hlv, hle⟩
    · rcases mem_cons.mp hpend with heq | hpend
      · subst heq
        rw [hu.label] at hlx
        cases hlx
        exact Or.inr ⟨_, label_take_self, le_rfl⟩
      · exact Or.inl ⟨rfl, hpend⟩
    · exact Or.inr (hi.label_le hlv hle)

theorem Inv.drop {pending : List (α × ℕ)}
    (h : Inv edges root u (e :: pending) s) (hu : Visiting u l s) (hi : ¬ s.Improves l e) :
    Inv edges root u pending s := by
  refine { h with relaxed := ?_ }
  intro x hx lx hlx v w hmem
  rcases h.relaxed x hx lx hlx v w hmem with ⟨rfl, hpend⟩ | hdone
  · rcases mem_cons.mp hpend with heq | hpend
    · subst heq
      rw [hu.label] at hlx
      cases hlx
      by_cases hv : v ∈ s.settled
      · obtain ⟨lv, hlv⟩ := h.settled_label v hv
        exact Or.inr ⟨lv, hlv, (hu.cost_le v hv lv hlv).trans (Nat.le_add_right _ _)⟩
      · have hex : ∃ lv, s.label v = some lv ∧ ¬ l.cost + w < lv.cost := by
          by_contra hnone
          push Not at hnone
          exact hi ⟨hv, fun lv hlv => hnone lv hlv⟩
        obtain ⟨lv, hlv, hle⟩ := hex
        exact Or.inr ⟨lv, hlv, not_lt.mp hle⟩
    · exact Or.inl ⟨rfl, hpend⟩
  · exact Or.inr hdone

theorem Inv.expand : ∀ (pending : List (α × ℕ)) {s : Search α}, (∀ e ∈ pending, e ∈ edges u) →
      Inv edges root u pending s → Visiting u l s → Inv edges root u [] (s.expand l pending) := by
  intro pending
  induction pending with
  | nil => intro s _ h _; exact h
  | cons e pending ih =>
    intro s hsub h hu
    have hsub' := fun e' he' => hsub e' (mem_cons_of_mem _ he')
    have hstep : s.expand l (e :: pending) = (s.relax l e).expand l pending := rfl
    rw [hstep, relax]
    split_ifs with hi
    · exact ih hsub' (h.take hu (hsub e mem_cons_self) hi) (hu.take hi)
    · exact ih hsub' (h.drop hu hi) hu

theorem Inv.visiting (h : Inv edges root u [] s) (hpop : s.queue.Perm ((d, v) :: queue))
    (hmin : ∀ e ∈ queue, d ≤ e.1) (hnew : v ∉ s.settled) (hl : s.label v = some l) :
    Visiting v l (s.settle v queue) where
  mem := mem_append_right _ (mem_singleton_self v)
  label := hl
  cost_le := by
    intro x hx lx hlx
    rcases mem_append.mp hx with hx | hx
    · rw [h.cost_eq_of_pop hpop hmin hnew hl]
      exact h.settled_le x hx lx hlx (d, v) (hpop.mem_iff.mpr mem_cons_self)
    · rw [mem_singleton.mp hx] at hlx
      rw [show s.label v = some lx from hlx] at hl
      cases hl
      exact le_rfl

theorem Inv.of_nil {u' : α} (h : Inv edges root u [] s) : Inv edges root u' [] s := by
  refine { h with relaxed := ?_ }
  intro x hx lx hlx v w hmem
  rcases h.relaxed x hx lx hlx v w hmem with ⟨-, hnil⟩ | hdone
  · cases hnil
  · exact Or.inr hdone

theorem Inv.step (h : Inv edges root root [] s) (hstep : Step edges s s') :
    Inv edges root root [] s' := by
  cases hstep with
  | skip hpop hold => exact h.skip hpop hold
  | visit hpop hmin hnew hl =>
    have hsettle := h.settle hpop hmin hnew hl
    have hvisit := h.visiting hpop hmin hnew hl
    exact (Inv.expand _ (fun _ he => he) hsettle hvisit).of_nil

/-! ## Runs -/

inductive Run (edges : α → List (α × ℕ)) (s : Search α) : ℕ → Search α → Prop where
  | nil : Run edges s 0 s
  | snoc {n : ℕ} {s' s'' : Search α} :
      Run edges s n s' → Step edges s' s'' → Run edges s (n + 1) s''

theorem Run.inv (hrun : Run edges (start root) n s) : Inv edges root root [] s := by
  induction hrun with
  | nil => exact inv_start edges root root
  | snoc _ hstep ih => exact ih.step hstep

def settledSum (f : α → ℕ) (s : Search α) : ℕ := (s.settled.map f).sum

theorem settledSum_settle (f : α → ℕ) (v : α) (queue : List (ℕ × α)) :
    settledSum f (s.settle v queue) = settledSum f s + f v := by
  simp [settledSum, settle]

theorem settled_expand (l : Label α) (es : List (α × ℕ)) :
    ∀ s : Search α, (s.expand l es).settled = s.settled := by
  induction es with
  | nil => intro s; rfl
  | cons e es ih =>
    intro s
    have hrelax : (s.relax l e).settled = s.settled := by
      rw [relax]
      split_ifs <;> rfl
    exact (ih (s.relax l e)).trans hrelax

theorem settledSum_expand (f : α → ℕ) (l : Label α) (es : List (α × ℕ)) (s : Search α) :
    settledSum f (s.expand l es) = settledSum f s := by
  rw [settledSum, settled_expand, settledSum]

theorem sum_map_le {f : α → ℕ} {xs : List α} (hnodup : xs.Nodup)
    (hf : ∀ x, f x ≠ 0 → x ∈ nodes) : (xs.map f).sum ≤ ∑ x ∈ nodes, f x := by
  rw [← sum_toFinset f hnodup]
  exact Finset.sum_le_sum_of_ne_zero fun x _ hx => hf x hx

/-! ### Every cost is small -/

def Bounded (bound : α → ℕ) (s : Search α) : Prop :=
  ∀ v l, s.label v = some l → l.cost ≤ settledSum bound s

theorem cost_le_of_expand {B : ℕ} :
    ∀ (es : List (α × ℕ)) {s : Search α}, (∀ e ∈ es, l.cost + e.2 ≤ B) →
      (∀ v lv, s.label v = some lv → lv.cost ≤ B) →
      ∀ v lv, (s.expand l es).label v = some lv → lv.cost ≤ B := by
  intro es
  induction es with
  | nil => intro s _ h; exact h
  | cons e es ih =>
    intro s hes h
    have hstep : s.expand l (e :: es) = (s.relax l e).expand l es := rfl
    rw [hstep]
    refine ih (fun e' he' => hes e' (mem_cons_of_mem _ he')) ?_
    intro v lv hlv
    rw [relax] at hlv
    split_ifs at hlv with hi
    · by_cases hv : v = e.1
      · subst hv
        rw [label_take_self] at hlv
        cases hlv
        exact hes e mem_cons_self
      · exact h v lv (by rwa [label_take_of_ne hv] at hlv)
    · exact h v lv hlv

theorem Bounded.step {bound : α → ℕ} (hbound : ∀ x v w, (v, w) ∈ edges x → w ≤ bound x)
    (h : Bounded bound s) (hstep : Step edges s s') : Bounded bound s' := by
  cases hstep with
  | skip _ _ => exact h
  | @visit d v queue l _ _ _ hl =>
    intro x lx hlx
    rw [settledSum_expand, settledSum_settle]
    refine cost_le_of_expand _ ?_ ?_ x lx hlx
    · intro e he
      exact Nat.add_le_add (h v l hl) (hbound v e.1 e.2 he)
    · intro y ly hly
      exact (h y ly hly).trans (Nat.le_add_right _ _)

theorem Run.bounded {bound : α → ℕ} (hbound : ∀ x v w, (v, w) ∈ edges x → w ≤ bound x)
    (hrun : Run edges (start root) n s) : Bounded bound s := by
  induction hrun with
  | nil =>
    intro v l hl
    rw [(of_label_start hl).2]
    exact Nat.zero_le _
  | snoc _ hstep ih => exact ih.step hbound hstep

theorem Run.cost_add_le {bound : α → ℕ}
    (hbound : ∀ x v w, (v, w) ∈ edges x → w ≤ bound x) (hnodes : ∀ x, bound x ≠ 0 → x ∈ nodes)
    (hrun : Run edges (start root) n s) (hnew : x ∉ s.settled)
    (hl : s.label x = some l) : l.cost + bound x ≤ ∑ y ∈ nodes, bound y := by
  have hnodup : (s.settled ++ [x]).Nodup := by
    rw [nodup_append]
    refine ⟨hrun.inv.nodup, nodup_singleton x, ?_⟩
    rintro y hy z hz rfl
    exact hnew (mem_singleton.mp hz ▸ hy)
  calc l.cost + bound x ≤ settledSum bound s + bound x :=
        Nat.add_le_add_right (hrun.bounded hbound x l hl) _
    _ = ((s.settled ++ [x]).map bound).sum := by simp [settledSum]
    _ ≤ ∑ y ∈ nodes, bound y := sum_map_le hnodup hnodes

/-! ### Every run is short -/

theorem length_queue_expand (l : Label α) (es : List (α × ℕ)) :
    ∀ s : Search α, (s.expand l es).queue.length ≤ s.queue.length + es.length := by
  induction es with
  | nil => intro s; exact le_rfl
  | cons e es ih =>
    intro s
    have hrelax : (s.relax l e).queue.length ≤ s.queue.length + 1 := by
      rw [relax]
      split_ifs <;> simp [take]
    have hrest := ih (s.relax l e)
    have hstep : s.expand l (e :: es) = (s.relax l e).expand l es := rfl
    rw [hstep, length_cons]
    omega

theorem Step.length_queue (hstep : Step edges s s') :
    s'.queue.length + 1 + settledSum (fun x => (edges x).length) s ≤
      s.queue.length + settledSum (fun x => (edges x).length) s' := by
  cases hstep with
  | skip hpop _ =>
    rw [hpop.length_eq]
    exact le_rfl
  | @visit d v queue l hpop _ _ _ =>
    have hexpand := length_queue_expand l (edges v) (s.settle v queue)
    rw [settledSum_expand, settledSum_settle, hpop.length_eq, length_cons]
    simp only [settle] at hexpand ⊢
    omega

theorem Run.length_queue (hnodes : ∀ x, edges x ≠ [] → x ∈ nodes)
    (hrun : Run edges (start root) n s) :
    s.queue.length + n ≤ 1 + ∑ x ∈ nodes, (edges x).length := by
  have hlen : s.queue.length + n ≤ 1 + settledSum (fun x => (edges x).length) s := by
    clear hnodes
    induction hrun with
    | nil => simp [start]
    | snoc _ hstep ih =>
      have := hstep.length_queue
      omega
  have hsum : settledSum (fun x => (edges x).length) s ≤ ∑ x ∈ nodes, (edges x).length :=
    sum_map_le hrun.inv.nodup fun x hx => hnodes x fun hnil => hx (by simp [hnil])
  omega

/-! ## What a search has found -/

theorem Inv.path (h : Inv edges root u [] s) :
    ∀ (n : ℕ) (v : α) (l : Label α), l.path.length = n → s.label v = some l →
      Path edges root v l.path l.cost := by
  intro n
  induction n with
  | zero =>
    intro v l hlen hl
    rcases h.extends_settled v l hl with rfl | ⟨x, -, lx, w, -, -, rfl⟩
    · rw [h.root_label] at hl
      cases hl
      exact Path.root
    · simp at hlen
  | succ n ih =>
    intro v l hlen hl
    rcases h.extends_settled v l hl with rfl | ⟨x, -, lx, w, hlx, hedge, rfl⟩
    · rw [h.root_label] at hl
      cases hl
      exact Path.root
    · exact Path.snoc (ih x lx (by simpa using hlen) hlx) hedge

theorem Inv.tree (h : Inv edges root u [] s) :
    ∀ (n : ℕ) (v : α) (l : Label α), l.path.length = n → s.label v = some l →
      ∀ x ∈ l.path, ∃ lx, s.label x = some lx ∧ lx.path <+: l.path := by
  intro n
  induction n with
  | zero =>
    intro v l hlen _ x hx
    rw [length_eq_zero_iff.mp hlen] at hx
    cases hx
  | succ n ih =>
    intro v l hlen hl x hx
    rcases h.extends_settled v l hl with rfl | ⟨y, -, ly, w, hly, -, rfl⟩
    · rw [h.root_label] at hl
      cases hl
      rw [mem_singleton.mp hx]
      exact ⟨_, h.root_label, prefix_rfl⟩
    · rcases mem_append.mp hx with hx | hx
      · obtain ⟨lx, hlx, hpre⟩ := ih y ly (by simpa using hlen) hly x hx
        exact ⟨lx, hlx, hpre.trans (prefix_append _ _)⟩
      · rw [mem_singleton.mp hx]
        exact ⟨_, hl, prefix_rfl⟩

theorem Inv.settled_of_label (h : Inv edges root u [] s) (hdone : s.queue = [])
    (hl : s.label v = some l) : v ∈ s.settled := by
  by_contra hnew
  have hmem := h.label_queue v l hl hnew
  rw [hdone] at hmem
  cases hmem

theorem Inv.cost_le (h : Inv edges root u [] s) (hdone : s.queue = []) {p : List α}
    {c : ℕ} (hpath : Path edges root v p c) : ∃ l, s.label v = some l ∧ l.cost ≤ c := by
  induction hpath with
  | root => exact ⟨_, h.root_label, le_rfl⟩
  | snoc _ hedge ih =>
    obtain ⟨l, hl, hle⟩ := ih
    rcases h.relaxed _ (h.settled_of_label hdone hl) l hl _ _ hedge with
      ⟨-, hnil⟩ | ⟨lv, hlv, hlev⟩
    · cases hnil
    · exact ⟨lv, hlv, hlev.trans (Nat.add_le_add_right hle _)⟩

theorem Inv.label_isLeast (h : Inv edges root u [] s) (hdone : s.queue = [])
    (hl : s.label v = some l) :
    IsLeast {c | ∃ p, Path edges root v p c} l.cost := by
  refine ⟨⟨l.path, h.path _ v l rfl hl⟩, ?_⟩
  rintro c ⟨p, hp⟩
  obtain ⟨l', hl', hle⟩ := h.cost_le hdone hp
  rw [hl] at hl'
  cases hl'
  exact hle

end Search

end

end TptRfc.Lib
