import CameraFleet.Client.Disposition
import CameraFleet.Proofs.Settings.Path

/-!
# Names of files that a server gives

Whatever value a server sends, the name that is taken from it is one name, without a slash of
either kind (`filename?_isEntry`). The value is cut at semicolons, quoted or not, so no name has
one either (`not_mem_of_filename?`).
-/

namespace CameraFleet.Client.Disposition

open Settings (Disk Path.IsEntry Path.join)

variable {value name : String} {cs raw c : List Char}

theorem not_mem_of_parameter? (h : parameter? cs = some raw) : ';' ∉ raw := by
  obtain ⟨part, hpart, hraw⟩ := List.exists_of_findSome?_eq_some h
  obtain ⟨piece, hpiece, rfl⟩ := List.mem_map.1 hpart
  split_ifs at hraw
  obtain rfl := Option.some.inj hraw
  intro hmem
  have hstripped := List.mem_of_mem_drop hmem
  exact (Text.mem_of_mem_splitOn hpiece (Text.mem_of_mem_stripBy hstripped)).2 rfl

/-- A last component is one name, made of characters of the path. -/
theorem shape_of_lastComponent? (h : lastComponent? cs = some c) :
    c ≠ [] ∧ c ≠ ['.'] ∧ c ≠ ['.', '.'] ∧ ∀ x ∈ c, x ∈ cs ∧ x ≠ '/' := by
  obtain ⟨hlast, habove⟩ := Option.filter_eq_some_iff.1 h
  obtain ⟨hpiece, hkept⟩ := List.mem_filter.1 (List.mem_of_mem_getLast? hlast)
  rw [decide_eq_true_eq] at hkept habove
  exact ⟨hkept.1, hkept.2, habove, fun x hx => Text.mem_of_mem_splitOn hpiece hx⟩

/-- The path that the name is the last component of. -/
theorem exists_path_of_filename? (h : filename? value = some name) : ∃ raw,
    parameter? value.toList = some raw ∧
      lastComponent? ((Text.stripBy (· = '\x22') raw).map fun c => if c = '\\' then '/' else c) =
        some name.toList := by
  obtain ⟨raw, hraw, hname⟩ := Option.bind_eq_some_iff.1 h
  obtain ⟨c, hc, rfl⟩ := Option.map_eq_some_iff.1 hname
  exact ⟨raw, hraw, by rw [hc, String.toList_ofList]⟩

theorem not_mem_of_filename? (h : filename? value = some name) :
    ';' ∉ name.toList ∧ '\\' ∉ name.toList := by
  obtain ⟨raw, hraw, hname⟩ := exists_path_of_filename? h
  obtain ⟨-, -, -, hchars⟩ := shape_of_lastComponent? hname
  refine ⟨fun hmem => ?_, fun hmem => ?_⟩
  · obtain ⟨x, hx, hchar⟩ := List.mem_map.1 (hchars _ hmem).1
    split_ifs at hchar
    · exact absurd hchar (by decide)
    · exact not_mem_of_parameter? hraw (hchar ▸ Text.mem_of_mem_stripBy hx)
  · obtain ⟨x, -, hchar⟩ := List.mem_map.1 (hchars _ hmem).1
    split_ifs at hchar with hback
    · exact absurd hchar (by decide)
    · exact hback hchar

theorem isEntry_of_filename? (h : filename? value = some name) : Path.IsEntry name := by
  obtain ⟨raw, -, hname⟩ := exists_path_of_filename? h
  obtain ⟨hne, hhere, habove, hchars⟩ := shape_of_lastComponent? hname
  refine ⟨?_, ?_, ?_, fun hmem => (hchars _ hmem).2 rfl⟩
  · rintro rfl
    exact hne rfl
  · rintro rfl
    exact hhere rfl
  · rintro rfl
    exact habove rfl

/-- A name that a server gives is one name without a slash of either kind, so it stays in whatever
directory it is taken from. -/
theorem filename?_isEntry (h : filename? value = some name) :
    Path.IsEntry name ∧ '\\' ∉ name.toList ∧
      ∀ dir, Disk.components (Path.join dir name) = Disk.components dir ++ [name] :=
  ⟨isEntry_of_filename? h, (not_mem_of_filename? h).2,
    Disk.components_join (isEntry_of_filename? h)⟩

theorem filename?_isEntry_dotted :
    filename? "inline; filename=\"..\\cams\\.bashrc/.\"" = some ".bashrc" ∧
      Disk.components (Path.join "/home/me" ".bashrc") = ["/", "home", "me", ".bashrc"] := by
  have hname : filename? "inline; filename=\"..\\cams\\.bashrc/.\"" = some ".bashrc" := by
    decide
  refine ⟨hname, ?_⟩
  rw [(filename?_isEntry hname).2.2 "/home/me"]
  decide

end CameraFleet.Client.Disposition
