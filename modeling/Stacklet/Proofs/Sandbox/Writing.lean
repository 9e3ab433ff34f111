import Stacklet.Sandbox.Machine

/-! # Files that were written

After a file was written, the path that it was written to leads to it, and it holds what was
written. A path is followed through directories, and no directory is ever replaced by a file.
-/

namespace Stacklet.Sandbox

namespace Files

variable {files after : Files} {path other : Path} {entry : Entry} {content : ByteArray}

theorem find?_replaced_self {entries : List (Path × Entry)} (h : entries.any (·.1 = path)) :
    (entries.map fun old => if old.1 = path then (path, entry) else old).find? (·.1 = path) =
      some (path, entry) := by
  induction entries with
  | nil => exact nomatch h
  | cons old rest ih =>
      by_cases hold : old.1 = path
      · simp [hold]
      · simp only [List.any_cons, hold, decide_false, Bool.false_or] at h
        simpa [hold, List.find?_cons] using ih h

theorem find?_replaced_of_ne (entries : List (Path × Entry)) (h : other ≠ path) :
    (entries.map fun old => if old.1 = path then (path, entry) else old).find? (·.1 = other) =
      entries.find? (·.1 = other) := by
  induction entries with
  | nil => rfl
  | cons old rest ih =>
      by_cases hold : old.1 = path
      · simp [hold, h.symm, ih]
      · simp [hold, List.find?_cons, ih]

theorem find?_insert_self (files : Files) (hpath : path ≠ []) (entry : Entry) :
    (files.insert path entry).find? path = some entry := by
  unfold insert find?
  rw [if_neg hpath]
  by_cases hany : files.entries.any (·.1 = path)
  · rw [if_pos hany, find?_replaced_self hany, Option.map_some]
  · have hnone : files.entries.find? (·.1 = path) = none := by
      rw [List.find?_eq_none]
      exact fun old hold hname => hany (List.any_eq_true.mpr ⟨old, hold, hname⟩)
    rw [if_neg hany, List.find?_append, hnone]
    simp

theorem find?_insert_of_ne (files : Files) (hother : other ≠ path) (entry : Entry) :
    (files.insert path entry).find? other = files.find? other := by
  unfold insert find?
  by_cases hany : files.entries.any (·.1 = path)
  · rw [if_pos hany, find?_replaced_of_ne _ hother]
  · rw [if_neg hany, List.find?_append]
    simp [hother.symm]

theorem checkDirectory_eq_ok_iff :
    files.checkDirectory path = .ok () ↔ files.find? path = some .directory := by
  unfold checkDirectory
  split <;> simp_all

/-- A path still leads where it did when something else than a directory is replaced. -/
theorem walk_insert {here target : Path} {names : List String}
    (hpath : files.find? path ≠ some .directory) (h : files.walk here names = .ok target) :
    (files.insert path entry).walk here names = .ok target := by
  induction names generalizing here with
  | nil => exact h
  | cons name rest ih =>
      unfold walk at h ⊢
      cases hhere : files.checkDirectory here with
      | error => 
          rw [hhere] at h
          exact nomatch h
      | ok =>
          have hfind := checkDirectory_eq_ok_iff.mp hhere
          have hne : here ≠ path := fun heq => hpath (heq ▸ hfind)
          rw [← find?_insert_of_ne files hne entry, ← checkDirectory_eq_ok_iff] at hfind
          rw [hhere] at h
          rw [hfind]
          change (if _ then _ else if _ then _ else _) = _ at h ⊢
          by_cases hstay : (name = "" || name = ".") = true
          · rw [if_pos hstay] at h ⊢
            exact ih h
          · rw [if_neg hstay] at h ⊢
            by_cases hup : name = ".."
            · rw [if_pos hup] at h ⊢
              exact ih h
            · rw [if_neg hup] at h ⊢
              exact ih h

/-- Writing replaces something else than a directory. -/
theorem write_eq_ok (h : files.write path content = .ok after) :
    files.find? path ≠ some .directory ∧
      ∃ executable, after = files.insert path (.file content executable) := by
  unfold write at h
  split at h
  case h_1 => exact nomatch h
  case h_2 executable hfind =>
    rw [hfind]
    exact ⟨nofun, executable, (Except.ok.inj h).symm⟩
  case h_3 hfind =>
    rw [hfind]
    cases hparent : files.checkDirectory path.dropLast with
    | error =>
        rw [hparent] at h
        exact nomatch h
    | ok =>
        rw [hparent] at h
        exact ⟨nofun, false, (Except.ok.inj h).symm⟩

theorem ne_nil_of_find? (h : files.find? path ≠ some .directory) : path ≠ [] := by
  rintro rfl
  exact h rfl

/-- A path that was written to leads to a file with what was written. -/
theorem read_of_write {here : Path} {name : String} (hname : files.resolve here name = .ok path)
    (h : files.write path content = .ok after) :
    after.resolve here name = .ok path ∧ after.read path = .ok content := by
  obtain ⟨hpath, executable, rfl⟩ := write_eq_ok h
  constructor
  · unfold resolve at hname ⊢
    split at hname
    · exact nomatch hname
    · rename_i hrelative
      rw [if_neg hrelative]
      exact walk_insert hpath hname
  · unfold read
    rw [find?_insert_self files (ne_nil_of_find? hpath)]

end Files

namespace World

/-- The path leads to a file that holds a text. -/
def Holds (world : World) (path text : String) : Prop :=
  ∃ target, world.files.resolve workPath path = .ok target ∧
    world.files.read target = .ok text.toUTF8

end World

namespace Machine

/-- A file that is written holds the text then, unless the path is that of the null device or ends
in a slash. -/
theorem holds_of_writeFile {path text : String} {world after : World}
    (hnull : path ≠ nullDevice) (hslash : path.toList.getLast? ≠ some '/')
    (h : writeFile path text world = .ok after) : after.Holds path text := by
  have htrimmed : String.ofList (path.toList.reverse.dropWhile (· = '/')).reverse = path := by
    have hdrop : path.toList.reverse.dropWhile (· = '/') = path.toList.reverse := by
      rw [List.getLast?_eq_head?_reverse] at hslash
      cases hreverse : path.toList.reverse with
      | nil => rfl
      | cons c rest =>
          rw [hreverse] at hslash
          exact List.dropWhile_cons_of_neg (by simpa using hslash)
    rw [hdrop, List.reverse_reverse, String.ofList_toList]
  unfold writeFile at h
  rw [if_neg hnull] at h
  simp only [htrimmed, beq_self_eq_true] at h
  cases hresolve : world.files.resolve workPath path with
  | error =>
      rw [hresolve] at h
      exact nomatch h
  | ok target =>
      simp only [hresolve] at h
      have hmap : (world.files.write target text.toUTF8).map ({ world with files := · }) =
          .ok after := by
        rw [← h]
        cases world.files.find? target with
        | none => rfl
        | some entry => cases entry <;> rfl
      cases hwrite : world.files.write target text.toUTF8 with
      | error =>
          rw [hwrite] at hmap
          exact nomatch hmap
      | ok files =>
          rw [hwrite] at hmap
          rw [← Except.ok.inj hmap]
          exact ⟨target, Files.read_of_write hresolve hwrite⟩

/-- A file with a name for assembly holds the text once it is written. -/
theorem holds_of_host_writeFile (output text : String) (world : World)
    (h : ((host.writeFile (output ++ ".asm") text).run world).1.isOk) :
    ((host.writeFile (output ++ ".asm") text).run world).2.Holds (output ++ ".asm") text := by
  have hlast : (output ++ ".asm").toList.getLast? = some 'm' := by
    simp
  have hnull : output ++ ".asm" ≠ nullDevice := by
    intro heq
    rw [heq] at hlast
    exact absurd hlast (by decide)
  have hslash : (output ++ ".asm").toList.getLast? ≠ some '/' := by
    rw [hlast]
    decide
  cases hwrite : writeFile (output ++ ".asm") text world with
  | error error =>
      have hfailed : (host.writeFile (output ++ ".asm") text).run world =
          (.error error, world) := by
        simp only [host, attemptChange, attempt, StateT.run, hwrite, Except.map]
      rw [hfailed] at h
      exact nomatch h
  | ok after =>
      have hdone : (host.writeFile (output ++ ".asm") text).run world = (.ok (), after) := by
        simp only [host, attemptChange, attempt, StateT.run, hwrite, Except.map]
      rw [hdone]
      exact holds_of_writeFile hnull hslash hwrite

end Machine

end Stacklet.Sandbox
