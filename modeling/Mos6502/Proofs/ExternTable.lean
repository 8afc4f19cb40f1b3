/-
Mos6502/Proofs/ExternTable.lean

Validation makes the table of externs a map.  Two passes go over the list of
externs: one checks it and remembers the names it has seen, the other enters it
into a table, where a name that is already there gets a new value.  Both are
described by what may follow some names (`Extern.Follow`): externs that have
names, new ones and all different.

* As long as externs follow the names seen, the check goes on
  (`Settings.checkExterns_append`), and otherwise there is a first extern that
  is refused (`Extern.follow_or_refused`).
* As long as externs follow the names in the table, every one of them becomes a
  new entry (`Settings.foldl_insertSymbol`).

So no entry of a valid list is overwritten, and the linker finds every extern
with its own value, in whatever order they are listed.
-/
import Mos6502.Proofs.Linking
import Mos6502.Settings.Basic

namespace Mos6502

/-! ### What may follow some names -/

namespace Extern

/-- Externs that may follow some names: they have names, which are new and all
different. -/
structure Follow (seen : List Bytes) (externs : List Extern) : Prop where
  named : ∀ e ∈ externs, e.name ≠ []
  distinct : (externs.map Extern.name).Nodup
  fresh : ∀ e ∈ externs, e.name ∉ seen

/-- Why an extern may not follow some names. -/
inductive Refused (seen : List Bytes) (e : Extern) : Settings.Invalid → Prop
  | unnamed : e.name = [] → Refused seen e .emptyName
  | repeated : e.name ≠ [] → e.name ∈ seen → Refused seen e (.declaredTwice e.name)

variable {seen seen' : List Bytes} {e : Extern} {externs externs' : List Extern}

theorem follow_nil (seen : List Bytes) : Follow seen [] :=
  ⟨by simp, by simp, by simp⟩

theorem follow_nothing_iff :
    Follow [] externs ↔ (∀ e ∈ externs, e.name ≠ []) ∧ (externs.map Extern.name).Nodup :=
  ⟨fun h => ⟨h.named, h.distinct⟩, fun h => ⟨h.1, h.2, by simp⟩⟩

/-- The first extern becomes one of the names that the others follow. -/
theorem follow_cons :
    Follow seen (e :: externs) ↔
      (e.name ≠ [] ∧ e.name ∉ seen) ∧ Follow (e.name :: seen) externs := by
  constructor
  · rintro ⟨hnamed, hdistinct, hfresh⟩
    rw [List.map_cons, List.nodup_cons] at hdistinct
    refine ⟨⟨hnamed e (by simp), hfresh e (by simp)⟩, ?_, hdistinct.2, ?_⟩
    · exact fun e' he' => hnamed e' (List.mem_cons_of_mem e he')
    · intro e' he'
      have hname : e'.name ∈ externs.map Extern.name := List.mem_map_of_mem he'
      rw [List.mem_cons, not_or]
      exact ⟨fun h => hdistinct.1 (h ▸ hname), hfresh e' (List.mem_cons_of_mem e he')⟩
  · rintro ⟨⟨hname, hnew⟩, hnamed, hdistinct, hfresh⟩
    simp only [List.mem_cons, not_or] at hfresh
    refine ⟨?_, ?_, ?_⟩
    · intro e' he'
      rcases List.mem_cons.mp he' with rfl | he'
      · exact hname
      · exact hnamed e' he'
    · rw [List.map_cons, List.nodup_cons]
      refine ⟨?_, hdistinct⟩
      intro hmem
      obtain ⟨e', he', heq⟩ := List.mem_map.mp hmem
      exact (hfresh e' he').1 heq
    · intro e' he'
      rcases List.mem_cons.mp he' with rfl | he'
      · exact hnew
      · exact (hfresh e' he').2

theorem Follow.anti (h : Follow seen externs) (hsub : ∀ name ∈ seen', name ∈ seen) :
    Follow seen' externs :=
  ⟨h.named, h.distinct, fun e he hmem => h.fresh e he (hsub e.name hmem)⟩

theorem Follow.perm (h : Follow seen externs) (hperm : externs'.Perm externs) :
    Follow seen externs' :=
  ⟨fun e he => h.named e (hperm.mem_iff.mp he),
    (hperm.map Extern.name).nodup_iff.mpr h.distinct,
    fun e he => h.fresh e (hperm.mem_iff.mp he)⟩

theorem Refused.mono {err : Settings.Invalid} (h : e.Refused seen err)
    (hsub : ∀ name ∈ seen, name ∈ seen') : e.Refused seen' err := by
  cases h with
  | unnamed hname => exact .unnamed hname
  | repeated hname hmem => exact .repeated hname (hsub _ hmem)

/-- **Externs follow some names, or there is a first one that is refused.** -/
theorem follow_or_refused (seen : List Bytes) (externs : List Extern) :
    Follow seen externs ∨ ∃ before e after err, externs = before ++ e :: after ∧
      Follow seen before ∧ e.Refused ((before.map Extern.name).reverse ++ seen) err := by
  induction externs generalizing seen with
  | nil => exact .inl (follow_nil seen)
  | cons e rest ih =>
    by_cases hname : e.name = []
    · exact .inr ⟨[], e, rest, _, rfl, follow_nil seen, .unnamed hname⟩
    by_cases hseen : e.name ∈ seen
    · exact .inr ⟨[], e, rest, _, rfl, follow_nil seen, .repeated hname hseen⟩
    rcases ih (e.name :: seen) with hrest | ⟨before, e', after, err, rfl, hbefore, hrefused⟩
    · exact .inl (follow_cons.mpr ⟨⟨hname, hseen⟩, hrest⟩)
    · refine .inr ⟨e :: before, e', after, err, rfl,
        follow_cons.mpr ⟨⟨hname, hseen⟩, hbefore⟩, ?_⟩
      simpa using hrefused

end Extern

/-! ### The check -/

namespace Settings

open Extern

variable {seen : List Bytes} {e : Extern} {externs : List Extern} {err : Invalid} {s : Settings}

theorem checkExterns_cons_of_fresh (hname : e.name ≠ []) (hseen : e.name ∉ seen)
    (rest : List Extern) : checkExterns seen (e :: rest) = checkExterns (e.name :: seen) rest := by
  simp [checkExterns, hname, hseen]

theorem checkExterns_cons_of_refused (h : e.Refused seen err) (rest : List Extern) :
    checkExterns seen (e :: rest) = .error err := by
  cases h with
  | unnamed hname => simp [checkExterns, hname]
  | repeated hname hseen => simp [checkExterns, hname, hseen]

/-- The check goes on after externs that follow, and has then seen their
names. -/
theorem checkExterns_append {before : List Extern} (h : Follow seen before)
    (rest : List Extern) :
    checkExterns seen (before ++ rest) =
      checkExterns ((before.map Extern.name).reverse ++ seen) rest := by
  induction before generalizing seen with
  | nil => rfl
  | cons e before ih =>
    obtain ⟨⟨hname, hseen⟩, hbefore⟩ := follow_cons.mp h
    rw [List.cons_append, checkExterns_cons_of_fresh hname hseen, ih hbefore]
    simp

theorem checkExterns_of_follow (h : Follow seen externs) : checkExterns seen externs = .ok () := by
  have happend := checkExterns_append h []
  rw [List.append_nil] at happend
  exact happend

theorem checkExterns_of_refused {before after : List Extern} (h : Follow seen before)
    (hrefused : e.Refused ((before.map Extern.name).reverse ++ seen) err) :
    checkExterns seen (before ++ e :: after) = .error err := by
  rw [checkExterns_append h, checkExterns_cons_of_refused hrefused]

theorem checkExterns_eq_ok_iff : checkExterns seen externs = .ok () ↔ Follow seen externs := by
  constructor
  · intro h
    rcases follow_or_refused seen externs with hfollow | ⟨before, e, after, err, rfl, hb, hr⟩
    · exact hfollow
    · rw [checkExterns_of_refused hb hr] at h
      cases h
  · exact checkExterns_of_follow

/-- **The check reports the first extern that is refused.** -/
theorem checkExterns_eq_error_iff :
    checkExterns seen externs = .error err ↔
      ∃ before e after, externs = before ++ e :: after ∧ Follow seen before ∧
        e.Refused ((before.map Extern.name).reverse ++ seen) err := by
  constructor
  · intro h
    rcases follow_or_refused seen externs with hfollow | ⟨before, e, after, err', rfl, hb, hr⟩
    · rw [checkExterns_of_follow hfollow] at h
      cases h
    · rw [checkExterns_of_refused hb hr] at h
      cases h
      exact ⟨before, e, after, rfl, hb, hr⟩
  · rintro ⟨before, e, after, rfl, hb, hr⟩
    exact checkExterns_of_refused hb hr

/-- The format is one of the two that are known. -/
def KnownFormat (s : Settings) : Prop :=
  s.format = elf ∨ s.format = bin

theorem validate_of_knownFormat (h : s.KnownFormat) : s.validate = checkExterns [] s.externs := by
  rw [validate, if_pos (by simpa [KnownFormat] using h)]

theorem validate_of_not_knownFormat (h : ¬ s.KnownFormat) :
    s.validate = .error (.format s.format) := by
  rw [validate, if_neg (by simpa [KnownFormat] using h)]

theorem validate_eq_ok_iff : s.validate = .ok () ↔ s.KnownFormat ∧ Follow [] s.externs := by
  by_cases hformat : s.KnownFormat
  · rw [validate_of_knownFormat hformat, checkExterns_eq_ok_iff]
    simp [hformat]
  · rw [validate_of_not_knownFormat hformat]
    simp [hformat]

theorem validate_eq_error_iff :
    s.validate = .error err ↔
      (¬ s.KnownFormat ∧ err = .format s.format) ∨
      (s.KnownFormat ∧ ∃ before e after, s.externs = before ++ e :: after ∧ Follow [] before ∧
        e.Refused (before.map Extern.name) err) := by
  by_cases hformat : s.KnownFormat
  · rw [validate_of_knownFormat hformat, checkExterns_eq_error_iff]
    have hrefused : ∀ (before : List Extern) (e : Extern),
        e.Refused ((before.map Extern.name).reverse ++ []) err ↔
          e.Refused (before.map Extern.name) err := by
      intro before e
      exact ⟨fun h => h.mono (by simp), fun h => h.mono (by simp)⟩
    simp only [hformat, not_true_eq_false, false_and, false_or, true_and, hrefused]
  · rw [validate_of_not_knownFormat hformat]
    simp [hformat, eq_comm]

/-! ### The table -/

theorem insertSymbol_of_fresh {table : SymbolMap} {name : Bytes}
    (h : name ∉ table.map Prod.fst) (value : UInt16) :
    insertSymbol table name value = table ++ [(name, value)] := by
  have hnone : table.lookup name = none := by
    rw [List.lookup_eq_none_iff]
    intro entry hentry
    have hne : name ≠ entry.1 := fun heq => h (heq ▸ List.mem_map_of_mem hentry)
    simpa using hne
  rw [insertSymbol, hnone]
  rfl

/-- Externs that follow the names in a table become new entries of it. -/
theorem foldl_insertSymbol {table : SymbolMap} (h : Follow (table.map Prod.fst) externs) :
    externs.foldl (fun table e => insertSymbol table e.name e.value) table =
      table ++ externs.map fun e => (e.name, e.value) := by
  induction externs generalizing table with
  | nil => simp
  | cons e rest ih =>
    obtain ⟨⟨-, hnew⟩, hrest⟩ := follow_cons.mp h
    rw [List.foldl_cons, insertSymbol_of_fresh hnew, ih]
    · simp
    · -- the table now has the name that the check has seen
      apply hrest.anti
      intro name hname
      simpa [or_comm] using hname

theorem externMap_of_follow (h : Follow [] externs) :
    externMap externs = externs.map fun e => (e.name, e.value) :=
  foldl_insertSymbol h

end Settings

/-- In a table without repeated names every entry counts. -/
theorem SymbolMap.lookup_eq_some_iff_mem {table : SymbolMap} (h : (table.map Prod.fst).Nodup)
    {name : Bytes} {value : UInt16} :
    table.lookup name = some value ↔ (name, value) ∈ table := by
  induction table with
  | nil => simp
  | cons entry rest ih =>
    obtain ⟨key, v⟩ := entry
    obtain ⟨hkey, hrest⟩ := List.nodup_cons.mp h
    by_cases hname : name = key
    · subst hname
      -- the name is not in the rest
      have hout : (name, value) ∉ rest := fun hmem => hkey (List.mem_map.mpr ⟨_, hmem, rfl⟩)
      simp [hout, eq_comm]
    · have hbeq : (name == key) = false := by simpa using hname
      rw [List.lookup_cons, hbeq, List.mem_cons]
      simp [hname, ih hrest]

/-- Linking sees of the externs no more than the value of every name. -/
theorem link_congr_externs {externs externs' : SymbolMap}
    (h : ∀ name, externs'.lookup name = externs.lookup name) (s : Section) (origin : UInt16) :
    link s origin externs' = link s origin externs := by
  have hstep : applyRelocation origin s.symbols externs' =
      applyRelocation origin s.symbols externs := by
    funext image r
    simp only [applyRelocation, resolve?, h]
  rw [link, link, hstep]

namespace Settings

open Extern

variable {externs : List Extern}

/-- **The table of externs that follow nothing is a map of them.** -/
theorem lookup_externMap (h : Follow [] externs) {name : Bytes} {value : UInt16} :
    (externMap externs).lookup name = some value ↔ ⟨name, value⟩ ∈ externs := by
  have hkeys : ((externMap externs).map Prod.fst).Nodup := by
    rw [externMap_of_follow h, List.map_map]
    exact h.distinct
  rw [SymbolMap.lookup_eq_some_iff_mem hkeys, externMap_of_follow h, List.mem_map]
  constructor
  · rintro ⟨e, he, heq⟩
    cases heq
    exact he
  · intro he
    exact ⟨_, he, rfl⟩

/-- **Valid settings have a faithful table of externs.**

* Settings are valid exactly if the format is known and the externs have names,
  all different.
* An unknown format is reported before anything about the externs, and after it
  the first extern that has no name or the name of an earlier one.
* The table of valid settings has one entry for each extern, with its name and
  value, in order; looking up a name in it, or linking a section that does not
  declare the name, finds the value of the extern with that name.
* The externs in another order are valid too, and make the same map: the same
  entries, the same value for every name, and the same result of linking any
  section. -/
theorem validate_externMap (s : Settings) :
    (s.validate = .ok () ↔ (s.format = ascii "elf" ∨ s.format = ascii "bin") ∧
      (∀ e ∈ s.externs, e.name ≠ []) ∧ (s.externs.map Extern.name).Nodup) ∧
    (∀ err, s.validate = .error err ↔
      (¬ (s.format = ascii "elf" ∨ s.format = ascii "bin") ∧ err = .format s.format) ∨
      ((s.format = ascii "elf" ∨ s.format = ascii "bin") ∧ ∃ before e after,
        s.externs = before ++ e :: after ∧
        ((∀ e' ∈ before, e'.name ≠ []) ∧ (before.map Extern.name).Nodup) ∧
        e.Refused (before.map Extern.name) err)) ∧
    (s.validate = .ok () →
      externMap s.externs = s.externs.map (fun e => (e.name, e.value)) ∧
      (∀ name value, (externMap s.externs).lookup name = some value ↔
        ⟨name, value⟩ ∈ s.externs) ∧
      (∀ origin symbols name value, symbols.lookup name = none →
        (resolve? origin symbols (externMap s.externs) name = some value ↔
          ⟨name, value⟩ ∈ s.externs)) ∧
      ∀ externs', externs'.Perm s.externs →
        { s with externs := externs' }.validate = .ok () ∧
        (externMap externs').Perm (externMap s.externs) ∧
        (∀ name, (externMap externs').lookup name = (externMap s.externs).lookup name) ∧
        ∀ (r : Section) (origin : UInt16),
          link r origin (externMap externs') = link r origin (externMap s.externs)) := by
  refine ⟨?_, ?_, ?_⟩
  · rw [validate_eq_ok_iff, follow_nothing_iff]
    rfl
  · intro err
    rw [validate_eq_error_iff]
    simp only [follow_nothing_iff]
    rfl
  · intro hvalid
    obtain ⟨hformat, hfollow⟩ := validate_eq_ok_iff.mp hvalid
    refine ⟨externMap_of_follow hfollow, fun name value => lookup_externMap hfollow, ?_, ?_⟩
    · intro origin symbols name value hnone
      rw [resolve?, hnone]
      exact lookup_externMap hfollow
    · intro externs' hperm
      have hfollow' := hfollow.perm hperm
      have hlookup : ∀ name, (externMap externs').lookup name =
          (externMap s.externs).lookup name := by
        intro name
        apply Option.ext
        intro value
        rw [lookup_externMap hfollow, lookup_externMap hfollow', hperm.mem_iff]
      refine ⟨validate_eq_ok_iff.mpr ⟨hformat, hfollow'⟩, ?_, hlookup,
        link_congr_externs hlookup⟩
      rw [externMap_of_follow hfollow, externMap_of_follow hfollow']
      exact hperm.map _

/-- Three externs, found again in the opposite order; with two more behind them,
the name that is there twice is reported and not the one that is missing. -/
theorem validate_externMap_reversed :
    ∃ s : Settings, s = ⟨0x0600, ascii "bin", [],
        [⟨ascii "chrout", 0xFFD2⟩, ⟨ascii "getin", 0xFFE4⟩, ⟨ascii "zp", 0x0002⟩]⟩ ∧
      s.validate = .ok () ∧
      resolve? 0x0600 [(ascii "main", 0)] (externMap s.externs) (ascii "chrout") = some 0xFFD2 ∧
      (externMap s.externs.reverse).lookup (ascii "getin") = some 0xFFE4 ∧
      ({ s with externs := s.externs ++ [⟨ascii "getin", 0⟩, ⟨[], 1⟩] } : Settings).validate =
        .error (.declaredTwice (ascii "getin")) := by
  obtain ⟨hok, -, hmap⟩ := validate_externMap ⟨0x0600, ascii "bin", [],
    [⟨ascii "chrout", 0xFFD2⟩, ⟨ascii "getin", 0xFFE4⟩, ⟨ascii "zp", 0x0002⟩]⟩
  obtain ⟨-, herror, -⟩ := validate_externMap ⟨0x0600, ascii "bin", [],
    [⟨ascii "chrout", 0xFFD2⟩, ⟨ascii "getin", 0xFFE4⟩, ⟨ascii "zp", 0x0002⟩,
      ⟨ascii "getin", 0⟩, ⟨[], 1⟩]⟩
  have hvalid := hok.mpr ⟨.inr rfl, by decide +kernel, by decide +kernel⟩
  obtain ⟨-, hlookup, hresolve, hperm⟩ := hmap hvalid
  obtain ⟨-, -, hsame, -⟩ := hperm _ (List.reverse_perm _)
  refine ⟨_, rfl, hvalid, (hresolve _ _ _ _ (by decide +kernel)).mpr (by simp),
    (hsame _).trans ((hlookup _ _).mpr (by simp)), ?_⟩
  refine (herror _).mpr (.inr ⟨.inr rfl,
    [⟨ascii "chrout", 0xFFD2⟩, ⟨ascii "getin", 0xFFE4⟩, ⟨ascii "zp", 0x0002⟩],
    ⟨ascii "getin", 0⟩, [⟨[], 1⟩], rfl, by decide +kernel, ?_⟩)
  exact .repeated (by decide +kernel) (by decide +kernel)

end Settings

end Mos6502
