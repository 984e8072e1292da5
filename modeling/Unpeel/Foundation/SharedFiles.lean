import Mathlib.Data.List.Basic

/-! # Files that several processes write

Names lead to files, and a file stays the same when it is renamed. A process that has opened
a file goes on writing to it under whatever name it has by then.
-/
namespace Unpeel
open Function

variable {Name β : Type*} [DecidableEq Name]

/-- What is in the file after a write at an offset, with a gap filled by `zero`. -/
def overwrite (zero : β) (content : List β) (offset : ℕ) (bytes : List β) : List β :=
  content.take offset ++ List.replicate (offset - content.length) zero ++ bytes ++ content.drop (offset + bytes.length)

/-- A write at the end of the file. -/
theorem overwrite_length (zero : β) (content bytes : List β) :
    overwrite zero content content.length bytes = content ++ bytes := by
  unfold overwrite
  rw [List.take_length, Nat.sub_self, List.replicate_zero, List.append_nil,
    List.drop_eq_nil_of_le (Nat.le_add_right _ _), List.append_nil]

structure SharedFiles (Name β : Type*) where
  names : Name → Option ℕ
  contents : ℕ → List β
  nextFile : ℕ
  distinct : ∀ a b file, names a = some file → names b = some file → a = b
  known : ∀ name file, names name = some file → file < nextFile

namespace SharedFiles
variable (files : SharedFiles Name β)

omit [DecidableEq Name] in
def read (name : Name) : Option (List β) := (files.names name).map files.contents

omit [DecidableEq Name] in
def setContent (file : ℕ) (content : List β) : SharedFiles Name β :=
  { files with contents := Function.update files.contents file content }

def create (name : Name) : SharedFiles Name β where
  names := Function.update files.names name (some files.nextFile)
  contents := Function.update files.contents files.nextFile []
  nextFile := files.nextFile + 1
  distinct := by
    intro a b file ha hb
    by_cases hna : a = name
    · by_cases hnb : b = name
      · rw [hna, hnb]
      · subst hna
        rw [Function.update_self] at ha
        cases ha
        rw [Function.update_of_ne hnb] at hb
        exact absurd (files.known b _ hb) (Nat.lt_irrefl _)
    · rw [Function.update_of_ne hna] at ha
      by_cases hnb : b = name
      · subst hnb
        rw [Function.update_self] at hb
        cases hb
        exact absurd (files.known a _ ha) (Nat.lt_irrefl _)
      · rw [Function.update_of_ne hnb] at hb
        exact files.distinct a b file ha hb
  known := by
    intro a file ha
    by_cases hna : a = name
    · subst hna
      rw [Function.update_self] at ha
      cases ha
      exact Nat.lt_succ_self _
    · rw [Function.update_of_ne hna] at ha
      exact Nat.lt_succ_of_lt (files.known a file ha)

/-- `open` with `O_CREAT` and `O_TRUNC`: the file that was opened, which is now empty. -/
def openTruncate (name : Name) : ℕ × SharedFiles Name β :=
  match files.names name with
  | some file => (file,files.setContent file [])
  | none => (files.nextFile,files.create name)

omit [DecidableEq Name] in
def writeAt (zero : β) (file offset : ℕ) (bytes : List β) : SharedFiles Name β :=
  files.setContent file (overwrite zero (files.contents file) offset bytes)

/-- `rename`; there is none where the source has no name any more. -/
def rename (source target : Name) : Option (SharedFiles Name β) :=
  match h : files.names source with
  | none => none
  | some file => some
    { names := Function.update (Function.update files.names source none) target (some file)
      contents := files.contents
      nextFile := files.nextFile
      distinct := by
        have hback : ∀ a other, Function.update (Function.update files.names source none) target (some file) a =
            some other → a = target ∧ other = file ∨ a ≠ source ∧ files.names a = some other := by
          intro a other ha
          by_cases hta : a = target
          · subst hta
            rw [Function.update_self] at ha
            cases ha
            exact .inl ⟨rfl,rfl⟩
          · rw [Function.update_of_ne hta] at ha
            by_cases hsa : a = source
            · subst hsa
              rw [Function.update_self] at ha
              cases ha
            · rw [Function.update_of_ne hsa] at ha
              exact .inr ⟨hsa,ha⟩
        intro a b other ha hb
        rcases hback a other ha with ⟨rfl,rfl⟩ | ⟨hsa,hfa⟩
        · rcases hback b _ hb with ⟨rfl,-⟩ | ⟨hsb,hfb⟩
          · rfl
          · exact absurd (files.distinct b source _ hfb h) hsb
        · rcases hback b _ hb with ⟨-,rfl⟩ | ⟨-,hfb⟩
          · exact absurd (files.distinct a source _ hfa h) hsa
          · exact files.distinct a b other hfa hfb
      known := by
        intro a other ha
        by_cases hta : a = target
        · subst hta
          rw [Function.update_self] at ha
          cases ha
          exact files.known source file h
        · rw [Function.update_of_ne hta] at ha
          by_cases hsa : a = source
          · subst hsa
            rw [Function.update_self] at ha
            cases ha
          · rw [Function.update_of_ne hsa] at ha
            exact files.known a other ha }

section Lemmas
variable {files} {name other : Name} {file : ℕ}

theorem openTruncate_names_self : (files.openTruncate name).2.names name = some (files.openTruncate name).1 := by
  unfold openTruncate
  split
  · assumption
  · exact update_self ..

theorem openTruncate_names_of_ne (h : other ≠ name) : (files.openTruncate name).2.names other = files.names other := by
  unfold openTruncate
  split
  · rfl
  · exact update_of_ne h ..

theorem openTruncate_contents_self : (files.openTruncate name).2.contents (files.openTruncate name).1 = [] := by
  unfold openTruncate
  split
  · exact update_self ..
  · exact update_self ..

/-- Opening one file leaves the others. -/
theorem openTruncate_contents_of_ne (h : file ≠ (files.openTruncate name).1) :
    (files.openTruncate name).2.contents file = files.contents file := by
  unfold openTruncate at *
  split at h
  · exact update_of_ne h ..
  · exact update_of_ne h ..

theorem rename_eq_none {source target : Name} : files.rename source target = none ↔ files.names source = none := by
  unfold rename
  split
  · rename_i h
    exact ⟨fun _ => h,fun _ => rfl⟩
  · rename_i h
    exact ⟨nofun,fun hno => nomatch h.symm.trans hno⟩

/-- The target leads to the file of the source, and nothing else changes. -/
theorem rename_eq_some {source target : Name} {next : SharedFiles Name β} (h : files.rename source target = some next)
    (hne : source ≠ target) : ∃ file, files.names source = some file ∧ next.names target = some file ∧
      next.names source = none ∧ (∀ other, other ≠ source → other ≠ target → next.names other = files.names other) ∧
      next.contents = files.contents ∧ next.nextFile = files.nextFile := by
  unfold rename at h
  split at h
  · cases h
  · rename_i file hfile
    cases h
    refine ⟨file,hfile,update_self ..,?_,?_,rfl,rfl⟩
    · show Function.update (Function.update files.names source none) target (some file) source = none
      rw [update_of_ne hne, update_self]
    · intro other hsource htarget
      show Function.update (Function.update files.names source none) target (some file) other = _
      rw [update_of_ne htarget, update_of_ne hsource]

end Lemmas

end SharedFiles

end Unpeel
