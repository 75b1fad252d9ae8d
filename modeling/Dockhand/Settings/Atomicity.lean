import Dockhand.Settings.Laws

/-!
# When a failed patch leaves everything as it was

`Patch` saves the sections it names one row at a time, so a write that fails leaves the rows that
were written before it, while the cache keeps the old settings. A row that is written has at least
its time in `updated_at` changed. A failed patch is therefore without effect exactly when it has
written nothing: it is refused before the loop, or the first write of the loop fails
(`Store.patch_error_iff`).
-/

namespace Dockhand.Settings

open Go

/-- Neither the cache nor a stored row differs. -/
def Store.Unchanged (st st' : Store) : Prop := st'.cur = st.cur ∧ st'.rows = st.rows

/-- The patch is refused: it names an unknown section, or what it makes of the settings does not
decode or is not valid. -/
def Store.Refuses (env : Env) (st : Store) (patch : SettingsPatch) : Prop :=
  ∃ e, st.prepare env patch = .error e

section Atomicity

variable {env : Env} {now : ℕ → ℕ} {writes : ℕ → Bool} {st st' : Store} {patch : SettingsPatch}
  {e : PatchError}

/-- Before a first write that fails nothing is written. -/
private theorem saveAll_of_first {final : Section → Obj} {ks : List Section} {rows : Rows}
    (h : writes 0 = false) : (saveAll final now writes 0 ks rows).1 = rows := by
  cases ks with
  | nil => rfl
  | cons k ks => simp [saveAll, h]

/-- **Atomicity of a failed patch.** When the clock shows a later time than that of every stored
row, a patch that fails leaves the cache and the rows as they were exactly if it is refused or its
first write fails. -/
theorem Store.patch_error_iff (hclock : ∀ k row, st.rows k = some row → ∀ i, row.updatedAt < now i)
    (h : st.patch env now writes patch = (st', .error e)) :
    st.Unchanged st' ↔ st.Refuses env patch ∨ writes 0 = false := by
  rw [Store.patch] at h
  split at h
  · -- the patch is refused before the save loop
    rename_i e' hprep
    obtain ⟨rfl, -⟩ := Prod.mk.inj h
    exact ⟨fun _ => .inl ⟨e', hprep⟩, fun _ => ⟨rfl, rfl⟩⟩
  · rename_i out changed hprep
    split at h
    · cases h
    · rename_i rows hsave
      obtain ⟨rfl, -⟩ := Prod.mk.inj h
      have hrows : rows = (saveAll (toMap out) now writes 0 changed st.rows).1 :=
        (congrArg Prod.fst hsave).symm
      constructor
      · rintro ⟨-, heq⟩
        refine .inr ?_
        by_contra hfirst
        rw [Bool.not_eq_false] at hfirst
        -- the first of the sections has been written, so its time is a new one
        cases changed with
        | nil => cases hsave
        | cons k ks =>
          have hk : k ∈ written writes 0 (k :: ks) := by
            rw [written, if_pos hfirst]
            exact List.mem_cons_self
          obtain ⟨i, hi⟩ := saveAll_of_mem (toMap out) now st.rows hk
          rw [← hrows, show rows = st.rows from heq] at hi
          exact absurd (hclock k _ hi i) (lt_irrefl _)
      · rintro (⟨e', hrefused⟩ | hfirst)
        · rw [hprep] at hrefused
          cases hrefused
        · exact ⟨rfl, hrows.trans (saveAll_of_first hfirst)⟩

end Atomicity

/-! ### A patch of two sections whose second write fails -/

namespace Example

/-- Every time zone is known and no window parser is installed. -/
def env : Env := ⟨fun _ => true, none⟩

/-- A new installation: nothing stored, the defaults cached. -/
def fresh : Store :=
  ⟨defaults "http://localhost:5773" [], defaults "http://localhost:5773" [], fun _ => none⟩

/-- `{"general": {"domain": "lan"}, "uptime": {"notify": false}}` -/
def twoSections : SettingsPatch :=
  ⟨[("general", ⟨[("domain", .str "lan")], by decide⟩),
    ("uptime", ⟨[("notify", .bool false)], by decide⟩)], by decide⟩

/-- The times of the writes, each later than the one before. -/
def ticks (i : ℕ) : ℕ := 100 + i

/-- The first write succeeds, the second fails. -/
def secondFails (i : ℕ) : Bool := i = 0

/-- A store with a row of an earlier time. -/
def stored : Store :=
  { fresh with
    rows := fun k => if k = .general then some ⟨.obj (toMap fresh.cur .general), 7⟩ else none }

end Example

/-- The patch reports an error, and the general section has a row it did not have before. -/
theorem Store.patch_error_not_unchanged :
    (Example.fresh.patch Example.env Example.ticks Example.secondFails Example.twoSections).2 =
        .error .write ∧
      ¬ Example.fresh.Unchanged (Example.fresh.patch Example.env Example.ticks Example.secondFails
        Example.twoSections).1 := by
  refine ⟨by decide, fun h => ?_⟩
  have hrow := congrArg Option.isSome (congrFun h.2 .general)
  exact absurd hrow (by decide)

/-- The write of the second section fails, and the first one stays written. -/
theorem Store.patch_error_iff_twoSections :
    Example.stored.Unchanged (Example.stored.patch Example.env Example.ticks Example.secondFails
        Example.twoSections).1 ↔
      Example.stored.Refuses Example.env Example.twoSections ∨ Example.secondFails 0 = false := by
  refine Store.patch_error_iff (e := .write) ?_ (Prod.ext rfl (by decide))
  intro k row hrow i
  obtain ⟨-, hrow⟩ := Option.ite_none_right_eq_some.mp hrow
  obtain rfl := Option.some.inj hrow
  show 7 < 100 + i
  omega

end Dockhand.Settings
