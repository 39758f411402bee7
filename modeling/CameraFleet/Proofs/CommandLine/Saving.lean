import CameraFleet.CommandLine.Watch
import CameraFleet.Proofs.Client.Downloads
import CameraFleet.Proofs.Ident.ReadBack

/-!
# Where raw captures are saved

Without a path on the command line a raw capture is saved under the name from the server, and if
there is none under a name made from the index. Only the first is reduced to one name, so just the
runs with a name from the server or an index without slashes save in the working directory
(`Watch.run_save_isEntry_iff`).
-/

namespace CameraFleet.CommandLine.Watch

open Client (Receives)
open Client.Disposition (filename?)
open Settings (Path.IsEntry)

variable {σ : Type} {link : Link σ} {s s' : σ}

/-- The name that an answer gives the file in it. -/
def nameOf (a : Http.Response) : Option String :=
  (Client.header? a "content-disposition").bind filename?

theorem isEntry_of_nameOf {a : Http.Response} {name : String} (h : nameOf a = some name) :
    Path.IsEntry name ∧ '\\' ∉ name.toList := by
  obtain ⟨value, -, hname⟩ := Option.bind_eq_some_iff.1 h
  exact ⟨Client.Disposition.isEntry_of_filename? hname,
    (Client.Disposition.not_mem_of_filename? hname).2⟩

theorem run_save {args : List String} {env : Settings.Environment} {w : Watch} {client : Client}
    {index : String} {a : Http.Response} (hargs : ofArguments? args env = some w)
    (hclient : Client.ofText w.server = .ok client) (hcommand : w.command = .save index none)
    (hreceives : client.Receives link (.ofText index) s a s') (hsuccess : Client.isSuccess a) :
    run link args env s =
      (.ok (.saved ((nameOf a).getD (Capture.filename (.ofText index))) a.body), s') := by
  have hrun : run link args env s = w.execute link s := by rw [run, hargs]
  have hexecute : w.execute link s = (Command.save index none).execute client link s := by
    unfold execute
    rw [hclient, hcommand]
  have hread : Client.readDownload a = .ok ⟨nameOf a, _, a.body⟩ := if_pos hsuccess
  have hdownload := hreceives.download_eq.trans (congrArg (·, s') hread)
  rw [hrun, hexecute]
  unfold Command.execute
  simp only [hdownload, savePath, Option.getD_none]

/-- The name for a raw capture is one name just when the server gives it or the index has no
slash. -/
theorem isEntry_getD_nameOf_iff {a : Http.Response} {index : String} :
    (Path.IsEntry ((nameOf a).getD (Capture.filename (.ofText index))) ↔
      (nameOf a).isSome ∨ '/' ∉ index.toList) ∧
    ('\\' ∉ ((nameOf a).getD (Capture.filename (.ofText index))).toList ↔
      (nameOf a).isSome ∨ '\\' ∉ index.toList) := by
  have hown : '\\' ∉ "camera__raw.bin".toList := by decide
  rcases hname : nameOf a with _ | name
  · simp [Capture.isEntry_filename_iff, Capture.mem_filename_iff hown]
  · simpa using isEntry_of_nameOf hname

theorem Report.write_of_isEntry {path : String} {bytes : ByteArray} {disk disk' : Settings.Disk}
    (hpath : Path.IsEntry path) (h : (Report.saved path bytes).write disk = .ok disk') :
    disk' = ⟨([path], bytes) :: disk.files.filter (·.1 ≠ [path]), disk.directories⟩ := by
  rcases hwrite : disk.write? path bytes with _ | written
  · simp [Report.write, hwrite] at h
  · simp only [Report.write, hwrite, Except.ok.injEq] at h
    exact Settings.Disk.write?_of_isEntry hpath (h ▸ hwrite)

/-- A run that saves a raw capture without a path for it, whatever the server answers with
success, saves under one name just when the server gives a name or the index has no slash. What
is written under one name is a file of the working directory, and nothing else changes. -/
theorem run_save_isEntry_iff {args : List String} {env : Settings.Environment} {w : Watch}
    {client : Client} {index : String} {a : Http.Response}
    (hargs : ofArguments? args env = some w) (hclient : Client.ofText w.server = .ok client)
    (hcommand : w.command = .save index none)
    (hreceives : client.Receives link (.ofText index) s a s') (hsuccess : Client.isSuccess a) :
    ∃ path, run link args env s = (.ok (.saved path a.body), s') ∧
      (Path.IsEntry path ↔ (nameOf a).isSome ∨ '/' ∉ index.toList) ∧
      ('\\' ∉ path.toList ↔ (nameOf a).isSome ∨ '\\' ∉ index.toList) ∧
      (Path.IsEntry path → ∀ disk disk' : Settings.Disk,
        (Report.saved path a.body).write disk = .ok disk' →
          disk' = ⟨([path], a.body) :: disk.files.filter (·.1 ≠ [path]), disk.directories⟩) :=
  ⟨_, run_save hargs hclient hcommand hreceives hsuccess, isEntry_getD_nameOf_iff.1,
    isEntry_getD_nameOf_iff.2, fun hpath _ _ h => Report.write_of_isEntry hpath h⟩

/-- The arguments that save the raw capture of a camera of a local service. -/
def saveArguments (index : String) : List String :=
  ["--server", "http://localhost:8080", "capture", "--index", index, "--raw"]

theorem ofArguments?_saveArguments {index : String} (h : looksLikeFlag index = false) :
    ofArguments? (saveArguments index) [] =
      some ⟨"http://localhost:8080", none, .save index none⟩ := by
  have hlooks : looksLikeFlag "--server" ∧ looksLikeFlag "http://localhost:8080" = false ∧
      looksLikeFlag "capture" = false ∧ looksLikeFlag "--index" ∧ looksLikeFlag "--raw" := by
    decide
  have hserver : flag? flags "--server" = some (⟨"server", none, true⟩, none) := rfl
  have hindex : flag? [.valued "index", .plain "raw", .valued "out"] "--index" =
      some (⟨"index", none, true⟩, none) := rfl
  have hraw : flag? [.valued "index", .plain "raw", .valued "out"] "--raw" =
      some (⟨"raw", none, false⟩, none) := rfl
  have hout : List.lookup "out" [("index", index), ("raw", "")] = none := rfl
  simp [ofArguments?, saveArguments, readFlags, command?, onlyFlags?, readValue?, Given.add?,
    Given.value?, takeValue?, hlooks, hserver, hindex, hraw, hout, h]

theorem ofText_localhost :
    Client.ofText "http://localhost:8080" = .ok Client.localClient := by
  have h : (Client.ofText "http://localhost:8080").toOption = some Client.localClient := by
    decide
  rcases hclient : Client.ofText "http://localhost:8080" with e | client
  · simp [hclient, Except.toOption] at h
  · rw [hclient, Except.toOption, Option.some.injEq] at h
    rw [h]

theorem receives_constant (index : Ident) (a : Http.Response) :
    Client.localClient.Receives (fun _ _ => (some a, ())) index () a () :=
  ⟨_, Client.captureRequest?_eq (Client.isRooted_localhost 8080) .captureBinary index, rfl⟩

theorem run_save_isEntry_iff_above :
    let a : Http.Response :=
      ⟨200, [("content-disposition", "inline; filename=\"../../x\"")], .empty⟩
    ∃ path, run (fun _ _ => (some a, ())) (saveArguments "../up") [] () =
      (.ok (.saved path .empty), ()) ∧ Path.IsEntry path := by
  intro a
  have hargs := ofArguments?_saveArguments (show looksLikeFlag "../up" = false by decide)
  obtain ⟨path, hrun, hentry, -⟩ := run_save_isEntry_iff hargs ofText_localhost rfl
    (receives_constant _ a) (by decide)
  exact ⟨path, hrun, hentry.2 (Or.inl (by decide))⟩

/-- The text of an index names a file in another directory where the server gives no name. -/
theorem run_save_slash :
    run (fun _ _ => (some ⟨200, [], "DATA".toUTF8⟩, ())) (saveArguments "a/b") [] () =
      (.ok (.saved "camera_a/b_raw.bin" "DATA".toUTF8), ()) ∧
      ¬ Path.IsEntry "camera_a/b_raw.bin" ∧
      (Report.saved "camera_a/b_raw.bin" "DATA".toUTF8).write ⟨[], [["camera_a"]]⟩ =
        .ok ⟨[(["camera_a", "b_raw.bin"], "DATA".toUTF8)], [["camera_a"]]⟩ := by
  have hfile : Capture.filename (.ofText "a/b") = "camera_a/b_raw.bin" := by decide
  have hargs := ofArguments?_saveArguments (show looksLikeFlag "a/b" = false by decide)
  have hrun := run_save hargs ofText_localhost rfl
    (receives_constant _ ⟨200, [], "DATA".toUTF8⟩) (by decide)
  have hname : nameOf ⟨200, [], "DATA".toUTF8⟩ = none := rfl
  rw [hname, Option.getD_none, hfile] at hrun
  refine ⟨hrun, by decide, ?_⟩
  have hplain : "camera_a/b_raw.bin" ≠ "" ∧
      Settings.Disk.wantsDirectory "camera_a/b_raw.bin" = false := by decide
  have hfollow : Settings.Disk.follow ⟨[], [["camera_a"]]⟩ "camera_a/b_raw.bin" =
      some (some ["b_raw.bin", "camera_a"]) := by decide
  have hplace : Settings.Disk.isDirectory ⟨[], [["camera_a"]]⟩ ["camera_a", "b_raw.bin"] =
      false := by decide
  simp [Report.write, Settings.Disk.write?, hplain, hfollow, hplace]

end CameraFleet.CommandLine.Watch
