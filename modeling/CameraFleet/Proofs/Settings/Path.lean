import Mathlib.Data.List.TakeWhile
import CameraFleet.Settings.Disk
import CameraFleet.Settings.Path
import CameraFleet.Proofs.Text.Split

/-!
# Entries of directories

A relative path leads on from the directory that it is taken from
(`Disk.components_join_of_relative`), which for a path in a file is the directory of the file
(`Disk.components_resolve`). A path that is one name leads to an entry of the directory
(`Disk.components_join`), and what is written there stands in the working directory itself
(`Disk.write?_of_isEntry`).
-/

namespace CameraFleet.Settings

/-- The path is one name, which a directory can have for an entry. -/
structure Path.IsEntry (name : String) : Prop where
  ne_empty : name ≠ ""
  ne_here : name ≠ "."
  ne_above : name ≠ ".."
  single : '/' ∉ name.toList

theorem Path.isEntry_iff {name : String} :
    IsEntry name ↔ name ≠ "" ∧ name ≠ "." ∧ name ≠ ".." ∧ '/' ∉ name.toList :=
  ⟨fun ⟨h, h', h'', hsingle⟩ => ⟨h, h', h'', hsingle⟩,
    fun ⟨h, h', h'', hsingle⟩ => ⟨h, h', h'', hsingle⟩⟩

instance (name : String) : Decidable (Path.IsEntry name) :=
  decidable_of_iff' _ Path.isEntry_iff

/-- One name that is not the directory itself is the only name of a path. -/
theorem Disk.names_segment {cs : List Char} (hne : cs ≠ []) (hhere : cs ≠ ['.'])
    (hslash : '/' ∉ cs) : names (String.ofList cs) = [String.ofList cs] := by
  have hdot : ['.'] = ".".toList := rfl
  rw [names, String.toList_ofList, Text.splitOn_of_not_mem hslash, List.map_singleton,
    List.filter_cons_of_pos, List.filter_nil]
  rw [hdot, ← String.toList_ofList (l := cs), ne_eq, String.toList_inj] at hhere
  simp [hne, hhere]

namespace Path.IsEntry

variable {name : String}

theorem not_isAbsolute (h : IsEntry name) : isAbsolute name = false := by
  rw [isAbsolute, decide_eq_false_iff_not]
  exact fun hhead => h.single (List.mem_of_mem_head? hhead)

theorem names_eq (h : IsEntry name) : Disk.names name = [name] := by
  have hne : name.toList ≠ [] := mt String.toList_eq_nil_iff.1 h.ne_empty
  have hhere : name.toList ≠ ['.'] := fun hdot => h.ne_here (String.toList_inj.1 hdot)
  have hnames := Disk.names_segment hne hhere h.single
  rwa [String.ofList_toList] at hnames

end Path.IsEntry

namespace Disk

open Settings.Path (IsEntry)

variable {name : String}

theorem names_append_slash (dir path : String) :
    names (dir ++ "/" ++ path) = names dir ++ names path := by
  have hslash : "/".toList = ['/'] := rfl
  rw [names, names, names, String.toList_append, String.toList_append, hslash, List.append_assoc,
    List.singleton_append, Text.splitOn_append, List.map_append, List.filter_append]

theorem names_append_slash_empty (path : String) : names (path ++ "/") = names path := by
  have hempty : names "" = [] := rfl
  have happend := names_append_slash path ""
  rwa [String.append_empty, hempty, List.append_nil] at happend

/-! ## Relative paths -/

theorem names_join {path : String} (h : isAbsolute path = false) (dir : String) :
    names (Path.join dir path) = names dir ++ names path := by
  have hpath : Path.isAbsolute path = false := h
  rw [Path.join, if_neg (by simp [hpath])]
  by_cases hdir : dir = ""
  · rw [if_pos (Or.inl hdir), hdir, String.empty_append]
    rfl
  by_cases hlast : dir.toList.getLast? = some '/'
  · obtain ⟨front, hfront⟩ := List.getLast?_eq_some_iff.1 hlast
    obtain rfl : dir = String.ofList front ++ "/" := by
      rw [← String.toList_inj, hfront, String.toList_append, String.toList_ofList]
      rfl
    rw [if_pos (Or.inr hlast), names_append_slash, names_append_slash_empty]
  · rw [if_neg (not_or.2 ⟨hdir, hlast⟩), names_append_slash]

theorem isAbsolute_join {path : String} (h : isAbsolute path = false) (dir : String) :
    isAbsolute (Path.join dir path) = isAbsolute dir := by
  have hpath : Path.isAbsolute path = false := h
  rw [Path.join, if_neg (by simp [hpath])]
  by_cases hdir : dir = ""
  · rw [if_pos (Or.inl hdir), hdir, String.empty_append, h]
    rfl
  · have hne : dir.toList ≠ [] := mt String.toList_eq_nil_iff.1 hdir
    have hhead : ∀ rest : String, isAbsolute (dir ++ rest) = isAbsolute dir := fun rest => by
      obtain ⟨c, cs, hcons⟩ := List.exists_cons_of_ne_nil hne
      rw [isAbsolute, isAbsolute, String.toList_append, hcons, List.cons_append, List.head?_cons,
        List.head?_cons]
    split_ifs
    · exact hhead path
    · rw [String.append_assoc, hhead]

/-- A relative path has the components of the directory in front of its own. -/
theorem components_join_of_relative {path : String} (h : isAbsolute path = false) (dir : String) :
    components (Path.join dir path) = components dir ++ names path := by
  rw [components, components, isAbsolute_join h, names_join h]
  split_ifs <;> rfl

/-- What an entry of a directory is called there leads to it: the components of the directory, and
one more. -/
theorem components_join (h : IsEntry name) (dir : String) :
    components (Path.join dir name) = components dir ++ [name] := by
  rw [components_join_of_relative h.not_isAbsolute, h.names_eq]

/-! ## The directory of a file -/

theorem follow_of_isEntry (disk : Disk) (h : IsEntry name) :
    disk.follow name = some (some [name]) := by
  have hrelative : isAbsolute name = false := h.not_isAbsolute
  rw [follow, h.names_eq, hrelative]
  simp [walk, h.ne_above]

/-- What is written under one name is a file of the working directory itself, and no other file
and no directory changes. -/
theorem write?_of_isEntry {disk disk' : Disk} {bytes : ByteArray} (h : IsEntry name)
    (hwrite : disk.write? name bytes = some disk') :
    disk' = ⟨([name], bytes) :: disk.files.filter (·.1 ≠ [name]), disk.directories⟩ := by
  rw [write?, follow_of_isEntry disk h] at hwrite
  simp only [List.reverse_singleton] at hwrite
  split_ifs at hwrite
  exact (Option.some.inj hwrite).symm

end Disk

end CameraFleet.Settings
