import Mathlib.Tactic.Common

/-! Pre- and postconditions for programs that read and change a state. The rules follow
the way programs are put together; a loop is proved by induction with them. -/
namespace HsspProgrammer.Triples

variable {σ α β : Type}

theorem bindRun (first : StateM σ α) (next : α → StateM σ β) (s : σ) :
    (first >>= next) s = next (first s).1 (first s).2 := rfl

theorem branchBind {p : Prop} [Decidable p] (left right : StateM σ α) (next : α → StateM σ β) :
    ((if p then left else right) >>= next) = if p then left >>= next else right >>= next := by
  split <;> rfl

def Triple (pre : σ → Prop) (prog : StateM σ α) (post : α → σ → Prop) : Prop :=
  ∀ s, pre s → post (prog s).1 (prog s).2

theorem done {pre : σ → Prop} {post : α → σ → Prop} {a : α} (imp : ∀ s, pre s → post a s) :
    Triple pre (pure a) post := imp

theorem andThen {pre : σ → Prop} {mid : α → σ → Prop} {post : β → σ → Prop} {first : StateM σ α}
    {next : α → StateM σ β} (before : Triple pre first mid) (after : ∀ a, Triple (mid a) (next a) post) :
    Triple pre (first >>= next) post :=
  fun s holds => after _ _ (before s holds)

theorem following {pre mid : σ → Prop} {post : β → σ → Prop} {first : StateM σ α} {next : StateM σ β}
    (before : Triple pre first (fun _ => mid)) (after : Triple mid next post) :
    Triple pre (first >>= fun _ => next) post := andThen before (fun _ => after)

theorem weaken {pre pre' : σ → Prop} {post post' : α → σ → Prop} {prog : StateM σ α} (triple : Triple pre' prog post')
    (before : ∀ s, pre s → pre' s) (after : ∀ a s, post' a s → post a s) : Triple pre prog post :=
  fun s holds => after _ _ (triple s (before s holds))

theorem weakenPost {pre : σ → Prop} {post post' : α → σ → Prop} {prog : StateM σ α} (triple : Triple pre prog post')
    (after : ∀ a s, post' a s → post a s) : Triple pre prog post :=
  weaken triple (fun _ holds => holds) after

theorem branch {pre : σ → Prop} {post : α → σ → Prop} {p : Prop} [Decidable p] {left right : StateM σ α}
    (yes : p → Triple pre left post) (no : ¬ p → Triple pre right post) :
    Triple pre (if p then left else right) post := by
  split
  · exact yes (by assumption)
  · exact no (by assumption)

theorem supposing {p : Prop} {pre : σ → Prop} {post : α → σ → Prop} {prog : StateM σ α}
    (triple : p → Triple pre prog post) : Triple (fun s => p ∧ pre s) prog post :=
  fun s holds => triple holds.1 s holds.2

theorem existing {ι : Type} {pre : ι → σ → Prop} {post : α → σ → Prop} {prog : StateM σ α}
    (triple : ∀ i, Triple (pre i) prog post) : Triple (fun s => ∃ i, pre i s) prog post := by
  rintro s ⟨i,holds⟩
  exact triple i s holds

end HsspProgrammer.Triples
