import Engramia.Library.FileView

/-!
What the names in a directory tree are like. A tree is lawful for two predicates of paths
when it is grounded and its directories and files satisfy them. Each call keeps a tree lawful
when the paths it makes satisfy the predicates.
-/
namespace Engramia.Library
namespace FileTree

universe u v
variable {ν : Type u} {γ : Type v} [DecidableEq ν]

structure Lawful (D F : List ν → Prop) (t : FileTree ν γ) : Prop where
  grounded : t.Grounded
  dirs : ∀ p, p ≠ [] → t.node? p = some .dir → D p
  files : ∀ p c, t.node? p = some (.file c) → F p

variable {D F : List ν → Prop} {t u : FileTree ν γ} {p src dst : List ν} {c : γ}

theorem lawful_empty : Lawful D F (OrderedDict.empty : FileTree ν γ) := by
  refine ⟨grounded_empty, ?_, ?_⟩
  · intro p hp hdir
    rw [node?_of_ne_nil hp] at hdir
    cases hdir
  · intro p c hfile
    cases p with
    | nil => cases hfile
    | cons n p => cases hfile

theorem free_of_mkdirs (hok : t.mkdirs p = .ok u) {q : List ν} (hq : q <+: p) :
    t.isFile q = false := by
  rw [mkdirs] at hok
  split at hok
  · cases hok
  · split at hok
    · cases hok
    · rename_i hany
      rw [List.any_eq_true] at hany
      rw [← Bool.not_eq_true]
      exact fun hfile => hany ⟨q, (List.mem_inits q p).mpr hq, hfile⟩

/-- Whether a directory can be made is decided by the files on the way to it. -/
theorem mkdirs_congr {t' : FileTree ν γ} (h : ∀ q, q <+: p → t'.isFile q = t.isFile q) :
    t'.mkdirs p = (t.mkdirs p).map fun _ => p.inits.foldl ensureDir t' := by
  have hany : p.inits.any t'.isFile = p.inits.any t.isFile := by
    rw [Bool.eq_iff_iff, List.any_eq_true, List.any_eq_true]
    apply exists_congr
    intro q
    apply and_congr_right
    intro hq
    rw [h q ((List.mem_inits q p).mp hq)]
  rw [FileTree.mkdirs, FileTree.mkdirs, h p (List.prefix_refl p), hany]
  split
  · rfl
  · split
    · rfl
    · rfl

theorem Lawful.mkdirs (h : t.Lawful D F) (hok : t.mkdirs p = .ok u)
    (hD : ∀ q, q <+: p → q ≠ [] → D q) : u.Lawful D F := by
  obtain ⟨u', hu', hgrounded, hnode⟩ := mkdirs_spec h.grounded fun q hq => free_of_mkdirs hok hq
  rw [hok] at hu'
  cases hu'
  refine ⟨hgrounded, ?_, ?_⟩
  · intro q hq hdir
    rw [hnode] at hdir
    by_cases hqp : q <+: p
    · exact hD q hqp hq
    · rw [if_neg hqp] at hdir
      exact h.dirs q hq hdir
  · intro q c hfile
    rw [hnode] at hfile
    by_cases hqp : q <+: p
    · rw [if_pos hqp] at hfile
      cases hfile
    · rw [if_neg hqp] at hfile
      exact h.files q c hfile

theorem Lawful.write (h : t.Lawful D F) (hok : t.write p c = .ok u) (hF : F p) :
    u.Lawful D F := by
  have hparent : t.node? p.dropLast = some .dir ∧ t.node? p ≠ some .dir := by
    rw [FileTree.write] at hok
    split at hok
    · cases hok
    · cases hok
    · cases hok
    · rename_i hparent hp
      exact ⟨hparent, hp⟩
  obtain ⟨u', hu', hgrounded, hnode⟩ := write_spec (c := c) h.grounded hparent.1 hparent.2
  rw [hok] at hu'
  cases hu'
  refine ⟨hgrounded, ?_, ?_⟩
  · intro q hq hdir
    rw [hnode] at hdir
    by_cases hqp : q = p
    · rw [if_pos hqp] at hdir
      cases hdir
    · rw [if_neg hqp] at hdir
      exact h.dirs q hq hdir
  · intro q c' hfile
    rw [hnode] at hfile
    by_cases hqp : q = p
    · rw [hqp]
      exact hF
    · rw [if_neg hqp] at hfile
      exact h.files q c' hfile

theorem Lawful.unlink (h : t.Lawful D F) (hok : t.unlink p = .ok u) : u.Lawful D F := by
  have hfile : ∃ c, t.node? p = some (.file c) := by
    rw [FileTree.unlink] at hok
    split at hok
    · cases hok
    · cases hok
    · rename_i c hp
      exact ⟨c, hp⟩
  obtain ⟨c, hp⟩ := hfile
  obtain ⟨u', hu', hgrounded, hnode⟩ := unlink_spec h.grounded hp
  rw [hok] at hu'
  cases hu'
  refine ⟨hgrounded, ?_, ?_⟩
  · intro q hq hdir
    rw [hnode] at hdir
    by_cases hqp : q = p
    · rw [if_pos hqp] at hdir
      cases hdir
    · rw [if_neg hqp] at hdir
      exact h.dirs q hq hdir
  · intro q c' hfile
    rw [hnode] at hfile
    by_cases hqp : q = p
    · rw [if_pos hqp] at hfile
      cases hfile
    · rw [if_neg hqp] at hfile
      exact h.files q c' hfile

theorem node?_move (hsrc : src ≠ []) (hdst : dst ≠ []) (q : List ν) :
    (t.move src dst).node? q =
      if dst <+: q then t.node? (src ++ q.drop dst.length)
      else if src <+: q then none else t.node? q := by
  by_cases hq : q = []
  · rw [hq, node?_nil, node?_nil, if_neg fun h => hdst (List.prefix_nil.mp h),
      if_neg fun h => hsrc (List.prefix_nil.mp h)]
  · rw [node?_of_ne_nil hq, get?_move, node?_of_ne_nil hq,
      node?_of_ne_nil (List.append_ne_nil_of_left_ne_nil hsrc _)]

/-- A rename takes along what is below it, file or directory. -/
theorem Lawful.replace {dir : List ν} {m n : ν} (h : t.Lawful D F)
    (hok : t.replace (dir ++ [m]) (dir ++ [n]) = .ok u)
    (hD : ∀ q, D (dir ++ [m] ++ q) → D (dir ++ [n] ++ q))
    (hF : ∀ q, F (dir ++ [m] ++ q) → F (dir ++ [n] ++ q)) : u.Lawful D F := by
  have hpresent : t.present (dir ++ [m]) = true := by
    rw [present_iff]
    intro hnone
    rw [FileTree.replace, hnone] at hok
    cases hok
  have hne : ∀ x : ν, dir ++ [x] ≠ [] := fun x =>
    List.append_ne_nil_of_right_ne_nil _ (List.cons_ne_nil _ _)
  have hnode := node?_move (t := t) (hne m) (hne n)
  rw [← replace_eq_ok hok] at hnode
  have hmoved : ∀ y, u.node? (dir ++ [n] ++ y) = t.node? (dir ++ [m] ++ y) := by
    intro y
    rw [hnode, if_pos (List.prefix_append _ _), List.drop_left]
  have hkept : ∀ q, ¬ dir ++ [n] <+: q → u.node? q ≠ none → u.node? q = t.node? q := by
    intro q hq hsome
    rw [hnode, if_neg hq] at hsome ⊢
    by_cases hqm : dir ++ [m] <+: q
    · rw [if_pos hqm] at hsome
      exact absurd rfl hsome
    · rw [if_neg hqm]
  refine ⟨?_, ?_, ?_⟩
  · intro x q hx hq hqx
    rw [present_iff] at hx
    by_cases hxn : dir ++ [n] <+: x
    · obtain ⟨y, rfl⟩ := hxn
      rw [hmoved, ← present_iff] at hx
      by_cases hqn : dir ++ [n] <+: q
      · obtain ⟨z, rfl⟩ := hqn
        rw [hmoved]
        apply h.grounded _ _ hx
        · rw [List.prefix_append_right_inj] at hq ⊢
          exact hq
        · intro heq
          exact hqx (by rw [List.append_cancel_left heq])
      · -- a directory above the renamed entry
        have hqdir : q <+: dir := by
          have hshort : q <+: dir ++ [n] := by
            cases List.prefix_or_prefix_of_prefix hq (List.prefix_append _ y) with
            | inl hle => exact hle
            | inr hge => exact absurd hge hqn
          have hdrop := prefix_dropLast hshort fun heq => hqn (heq ▸ List.prefix_refl _)
          rwa [List.dropLast_concat] at hdrop
        have hlen := hqdir.length_le
        have habove : q ≠ dir ++ [m] := by
          intro heq
          rw [heq, List.length_append, List.length_singleton] at hlen
          omega
        have hqm : ¬ dir ++ [m] <+: q := by
          intro hle
          have hlen' := hle.length_le
          rw [List.length_append, List.length_singleton] at hlen'
          omega
        rw [hnode, if_neg hqn, if_neg hqm]
        exact h.grounded _ _ hpresent (hqdir.trans (List.prefix_append _ _)) habove
    · have hqn : ¬ dir ++ [n] <+: q := fun hle => hxn (hle.trans hq)
      have hxm : ¬ dir ++ [m] <+: x := by
        intro hle
        rw [hnode, if_neg hxn, if_pos hle] at hx
        exact hx rfl
      rw [hnode, if_neg hxn, if_neg hxm, ← present_iff] at hx
      rw [hnode, if_neg hqn, if_neg fun hle => hxm (hle.trans hq)]
      exact h.grounded x q hx hq hqx
  · intro q hq hdir
    by_cases hqn : dir ++ [n] <+: q
    · obtain ⟨y, rfl⟩ := hqn
      rw [hmoved] at hdir
      exact hD y (h.dirs _ (List.append_ne_nil_of_left_ne_nil (hne m) y) hdir)
    · rw [hkept q hqn (by rw [hdir]; exact Option.some_ne_none _)] at hdir
      exact h.dirs q hq hdir
  · intro q c hfile
    by_cases hqn : dir ++ [n] <+: q
    · obtain ⟨y, rfl⟩ := hqn
      rw [hmoved] at hfile
      exact hF y (h.files _ c hfile)
    · rw [hkept q hqn (by rw [hfile]; exact Option.some_ne_none _)] at hfile
      exact h.files q c hfile

end FileTree

end Engramia.Library
