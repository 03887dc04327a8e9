import SambaShares.Proofs.Disk.Parent
import SambaShares.Proofs.Files
import SambaShares.Proofs.Settings.RoundTrip
import SambaShares.Settings.Files
/-!
The settings file: what is loaded after a save, and what a save that is refused leaves behind.
-/

namespace SambaShares.Settings

open Disk

variable {machine : Machine} {settings : Settings} {path : Text} {place : Place}

theorem write_of_writable (writable : settings.Writable) :
    settings.write = .ok settings.render := by
  unfold write
  rw [if_pos (by simp [writable.maxBackups, writable.restartTimeoutSecs])]

theorem write_of_not_writable (refused : ¬settings.Writable) :
    settings.write = .error .unwritable := by
  unfold write
  rw [if_neg]
  intro fits
  simp only [Bool.and_eq_true, decide_eq_true_eq] at fits
  exact refused ⟨fits.1, fits.2⟩

theorem makeParent_run (path : Text) (machine : Machine) :
    (makeParent path).run machine = match Path.parent? path with
      | none | some [] => (machine, .ok ())
      | some directory =>
        let made := (Files.makeDirectories directory).run machine
        (made.1, made.2.mapError (.io directory)) := by
  unfold makeParent
  rcases Path.parent? path with _ | _ | ⟨c, rest⟩
  · rfl
  · rfl
  · dsimp only
    rw [Script.run_bind]
    rcases (Files.makeDirectories (c :: rest)).run machine with ⟨state, _ | _⟩ <;> rfl

/-- Making the directory of a file adds directories and changes nothing. -/
theorem grows_makeParent (formed : machine.disk.WellFormed) (path : Text) :
    Grows (fun _ node => node = .directory) machine.disk ((makeParent path).run machine).1.disk := by
  rw [makeParent_run]
  split
  · exact .refl formed
  · exact .refl formed
  · next directory _ _ =>
    exact (Files.grows_makeDirectories formed directory _ (Script.run_mem_states _ _)).mono
      fun _ _ added => added.1

theorem error_of_makeParent {e : SettingsError}
    (failed : ((makeParent path).run machine).2 = .error e) :
    ∃ directory cause, Path.parent? path = some directory ∧ e = .io directory cause := by
  rw [makeParent_run] at failed
  split at failed
  · cases failed
  · cases failed
  · next directory _ found =>
    dsimp only at failed
    cases ended : ((Files.makeDirectories directory).run machine).2 with
    | ok => simp [ended, Except.mapError] at failed
    | error cause =>
      rw [ended] at failed
      exact ⟨directory, cause, found, (Except.error.inj failed).symm⟩

/-- Where a file can be written there is nothing to make. -/
theorem makeParent_run_of_takes (formed : machine.disk.WellFormed)
    (takes : machine.disk.Takes path place) : (makeParent path).run machine = (machine, .ok ()) := by
  obtain ⟨directory, parent, rfl | ⟨up, leads, there⟩⟩ := takes.parent? formed
  · rw [makeParent_run, parent]
  · rw [makeParent_run, parent]
    dsimp only
    split
    · rfl
    · rfl
    · next other _ same =>
      cases same
      rw [Files.makeDirectories_run_of_directory formed leads there]
      rfl

theorem save_run_of_error {e : SettingsError}
    (failed : ((makeParent path).run machine).2 = .error e) (settings : Settings) :
    (settings.save path).run machine = (((makeParent path).run machine).1, .error e) := by
  unfold save
  rw [Script.run_andThen, failed]

/-- A number that cannot be written is noticed only after the directory was made. -/
theorem save_run_of_not_writable (refused : ¬settings.Writable) (path : Text) (machine : Machine) :
    let made := (makeParent path).run machine
    (settings.save path).run machine = (made.1, made.2.bind fun () => .error .unwritable) := by
  intro made
  unfold save
  rw [Script.run_andThen, write_of_not_writable refused]
  cases made.2 <;> rfl

theorem save_run_of_writable (writable : settings.Writable)
    (made : ((makeParent path).run machine).2 = .ok ()) :
    let written := ((makeParent path).run machine).1.perform
      (.write path (Utf8.encode settings.render))
    ((settings.save path).run machine).1 = written.1 ∧
      (((settings.save path).run machine).2 = .ok () ↔ written.2 = .ok ()) := by
  unfold save
  rw [Script.run_andThen, made]
  simp only [write_of_writable writable, Script.write, Script.request, Script.bind, Script.run]
  rcases (Machine.perform _ (.write path (Utf8.encode settings.render))).2 with cause | _
  · exact ⟨rfl, by simp⟩
  · exact ⟨rfl, fun _ => rfl, fun _ => rfl⟩

theorem load_run_of_read {content : Bytes} (shown : machine.disk.read path = .ok content) :
    (load path).run machine = (machine, ofBytes path content) := by
  simp only [load, Script.read, Script.request, Script.bind, Script.run, Machine.perform, shown]

theorem ofBytes_render (writable : settings.Writable) (path : Text) :
    ofBytes path (Utf8.encode settings.render) = .ok settings := by
  unfold ofBytes
  rw [Utf8.decode_encode]
  simp only [read?_render writable]

/-- A file is written just if the disk takes it and nothing is wanting for it. -/
theorem perform_write_eq_ok_iff (machine : Machine) (path : Text) (content : Bytes) :
    (machine.perform (.write path content)).2 = .ok () ↔
      (∃ place, machine.disk.Takes path place) ∧ machine.wanting? (.write path content) = none := by
  rcases machine.changed_cases (.write path content)
      ((machine.disk.write path content).map (·, ())) with
    ⟨cause, refused, done⟩ | ⟨-, want, -, wanting, -, answer⟩ | ⟨⟨after, _⟩, found, wanting, -, answer⟩
  · have failed : (machine.perform (.write path content)).2 = .error cause := congrArg Prod.snd done
    rw [failed]
    refine ⟨nofun, ?_⟩
    rintro ⟨⟨place, takes⟩, -⟩
    obtain ⟨mode, succeeds⟩ := takes.write_eq content
    rw [succeeds] at refused
    cases refused
  · have failed : (machine.perform (.write path content)).2 = .error want.error := answer
    rw [failed, wanting]
    exact ⟨nofun, nofun⟩
  · obtain ⟨place, mode, takes, -⟩ := write_eq_ok (Machine.map_eq_ok found)
    exact ⟨fun _ => ⟨⟨place, takes⟩, wanting⟩, fun _ => answer⟩

theorem read_perform_write (formed : machine.disk.WellFormed) {content : Bytes}
    (written : (machine.perform (.write path content)).2 = .ok ()) :
    (machine.perform (.write path content)).1.disk.read path = .ok content := by
  rcases machine.changed_cases (.write path content)
      ((machine.disk.write path content).map (·, ())) with
    ⟨cause, -, done⟩ | ⟨-, want, -, -, -, answer⟩ | ⟨⟨after, _⟩, found, -, changed, -⟩
  · cases (congrArg Prod.snd done).symm.trans written
  · cases answer.symm.trans written
  · obtain ⟨_, _, puts⟩ := formed.puts_of_write (Machine.map_eq_ok found)
    have last : (machine.perform (.write path content)).1.disk = after := changed
    rw [last, Disk.read, puts.find]
    rfl

/-- Settings are saved if the directory of the file can be made, the disk takes a file at the path then,
and nothing is wanting for it; the file holds them. -/
theorem save_of_writable (formed : machine.disk.WellFormed) (writable : settings.Writable)
    (path : Text) :
    let run := (settings.save path).run machine
    let made := (makeParent path).run machine
    (run.2 = .ok () → run.1.disk.read path = .ok (Utf8.encode settings.render)) ∧
      (run.2 = .ok () ↔ made.2 = .ok () ∧ (∃ place, made.1.disk.Takes path place) ∧
        made.1.wanting? (.write path (Utf8.encode settings.render)) = none) := by
  intro run made
  cases ended : made.2 with
  | error e =>
    have failed : run = (made.1, .error e) := save_run_of_error ended settings
    simp [failed]
  | ok =>
    obtain ⟨last, succeeds⟩ := save_run_of_writable writable ended
    have formedBetween := (grows_makeParent formed path).formed
    constructor
    · intro saved
      rw [last]
      exact read_perform_write formedBetween (succeeds.1 saved)
    · rw [succeeds, perform_write_eq_ok_iff]
      exact ⟨fun done => ⟨rfl, done⟩, fun done => done.2⟩

/-- Saved settings are loaded as they were, whatever their texts are. Settings with a number that
cannot be written are refused, and everything that existed stays as it was; but the directory of the
file is made first, and if that fails, this is the error. Where a file exists nothing is made. -/
theorem save_load (formed : machine.disk.WellFormed) (settings : Settings) (path : Text) :
    let run := (settings.save path).run machine
    let made := (makeParent path).run machine
    (settings.Writable →
      (run.2 = .ok () → (load path).run run.1 = (run.1, .ok settings)) ∧
      (run.2 = .ok () ↔ made.2 = .ok () ∧ (∃ place, made.1.disk.Takes path place) ∧
        made.1.wanting? (.write path (Utf8.encode settings.render)) = none) ∧
      ((∃ place, machine.disk.Takes path place) →
        machine.wanting? (.write path (Utf8.encode settings.render)) = none → run.2 = .ok ())) ∧
    (¬settings.Writable →
      (∀ other node, machine.disk.find other = .ok node → run.1.disk.find other = .ok node) ∧
      (run.2 = .error .unwritable ∨ ∃ directory cause, Path.parent? path = some directory ∧
        made.2 = .error (.io directory cause) ∧ run.2 = .error (.io directory cause)) ∧
      ((∃ place, machine.disk.Takes path place) → run = (machine, .error .unwritable))) := by
  intro run made
  refine ⟨fun writable => ?_, fun refused => ?_⟩
  · obtain ⟨shown, succeeds⟩ := save_of_writable formed writable path
    refine ⟨fun saved => ?_, succeeds, ?_⟩
    · rw [load_run_of_read (shown saved), ofBytes_render writable]
    · rintro ⟨place, takes⟩ granted
      have nothing := makeParent_run_of_takes formed takes
      exact succeeds.2 (by rw [nothing]; exact ⟨rfl, ⟨place, takes⟩, granted⟩)
  · have ended : run = (made.1, made.2.bind fun () => .error .unwritable) :=
      save_run_of_not_writable refused path machine
    refine ⟨fun other node found => ?_, ?_, ?_⟩
    · rw [ended]
      exact (grows_makeParent formed path).find formed found
    · rw [ended]
      cases result : made.2 with
      | error e =>
        obtain ⟨directory, cause, parent, rfl⟩ := error_of_makeParent result
        exact Or.inr ⟨directory, cause, parent, rfl, rfl⟩
      | ok => exact Or.inl rfl
    · rintro ⟨place, takes⟩
      have nothing : made = (machine, .ok ()) := makeParent_run_of_takes formed takes
      rw [ended, nothing]
      rfl

/-- Quotes of both kinds, a backslash and a line break, in a file that exists. -/
theorem save_load_quotes :
    let machine : Machine := { disk := Disk.put {} ["c".toList] (.file [] 0o600) }
    let settings : Settings :=
      { service := { units := ["\"\"\"\"'''\\\n\t".toList, []] }, logging := { level := "''".toList } }
    let run := (settings.save "/c".toList).run machine
    run.2 = .ok () ∧ (load "/c".toList).run run.1 = (run.1, .ok settings) := by
  intro machine settings run
  have formed : machine.disk.WellFormed := by decide +kernel
  have found : machine.disk.find "/c".toList = .ok (.file [] 0o600) := by rfl
  obtain ⟨reads, -, succeeds⟩ :=
    (save_load formed settings "/c".toList).1 ⟨by decide +kernel, by decide +kernel⟩
  have saved := succeeds (formed.takes_of_file found) rfl
  exact ⟨saved, reads saved⟩

/-- A file stands where the directory would have to be made: the number that cannot be written is not
what is reported. -/
theorem save_below_file :
    let machine : Machine := { disk := Disk.put {} ["blocker".toList] (.file [] 0o644) }
    let settings : Settings := { storage := { maxBackups := 9223372036854775808 } }
    let run := (settings.save "blocker/x.toml".toList).run machine
    ¬settings.Writable ∧ run.2 = .error (.io "blocker".toList .alreadyExists) := by
  intro machine settings run
  refine ⟨fun writable => ?_, by decide +kernel⟩
  have fits := writable.maxBackups
  revert fits
  decide +kernel

end SambaShares.Settings
