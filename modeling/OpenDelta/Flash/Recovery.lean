import OpenDelta.Flash.FlashUpdate

/-!
# The recovery

What an `openrecoveryscript` makes a recovery do: its lines are commands, and an
installation is noted with the verification setting and the keys at that moment.
-/

namespace OpenDelta.Flash
open JavaString TextLines

/-- An installation: the ZIP, whether its signature is verified, and the keys. -/
structure Install where
  file : String
  verified : Bool
  keys : Option String
  deriving DecidableEq, Repr

structure Recovery where
  files : String → Option String
  verify : Bool
  installs : List Install

/-- The parts of a shell command between its blanks. -/
def words : List Char → List Char → List String
  | [], part => [String.ofList part.reverse]
  | c :: cs, part => if c = ' ' then String.ofList part.reverse :: words cs [] else words cs (c :: part)

namespace Recovery

variable (r : Recovery)

def setFile (path : String) (content : Option String) : Recovery :=
  { r with files := fun file => if file = path then content else r.files file }

/-- The shell commands of the scripts: a file is written to another, or removed. -/
def shell (command : String) : Recovery :=
  match words command.toList [] with
  | [verb, source, redirection, target] =>
    if verb = "cat" ∧ redirection = ">" then r.setFile target (some ((r.files source).getD "")) else r
  | [verb, path] => if verb = "rm" then r.setFile path none else r
  | _ => r

def install (file : String) : Recovery :=
  { r with installs := r.installs ++ [{ file, verified := r.verify, keys := r.files "/res/keys" }] }

/-- One line of a script. -/
def command (line : String) : Recovery :=
  if startsWith line "install " then r.install (substringAfter line "install ")
  else if startsWith line "set tw_signed_zip_verify " then
    { r with verify := substringAfter line "set tw_signed_zip_verify " = "1" }
  else if startsWith line "cmd " then r.shell (substringAfter line "cmd ")
  else r

/-- A script, line by line. -/
def execute (script : String) : Recovery := (lines script).foldl command r

end Recovery

/-! ## The commands of `flashUpdate` -/

theorem startsWith_append (s t : String) : startsWith (s ++ t) s = true := by
  simp [startsWith]

theorem substringAfter_append (s t : String) : substringAfter (s ++ t) s = t := by
  simp [substringAfter]

/-- A text is its beginning and what follows that. -/
theorem append_substringAfter {s t : String} (starts : startsWith s t = true) : t ++ substringAfter s t = s := by
  obtain ⟨rest, split⟩ := List.isPrefixOf_iff_prefix.mp starts
  rw [← String.toList_inj, String.toList_append, substringAfter, String.toList_ofList, ← split, List.drop_left]

namespace Recovery

variable (r : Recovery)

theorem command_install (file : String) : r.command ("install " ++ file) = r.install file := by
  rw [command, if_pos (startsWith_append ..), substringAfter_append]

theorem command_verify : r.command "set tw_signed_zip_verify 1" = { r with verify := true } := by
  rw [command, if_neg (by decide), if_pos (by decide)]
  congr 1

theorem command_trust : r.command "set tw_signed_zip_verify 0" = { r with verify := false } := by
  rw [command, if_neg (by decide), if_pos (by decide)]
  congr 1

theorem command_wipe : r.command "wipe cache" = r := by
  rw [command, if_neg (by decide), if_neg (by decide), if_neg (by decide)]

theorem command_cat {line source target : String} (notInstall : startsWith line "install " = false)
    (notSet : startsWith line "set tw_signed_zip_verify " = false) (cmd : startsWith line "cmd " = true)
    (parts : words (substringAfter line "cmd ").toList [] = ["cat", source, ">", target]) :
    r.command line = r.setFile target (some ((r.files source).getD "")) := by
  rw [command, notInstall, notSet, if_neg Bool.false_ne_true, if_neg Bool.false_ne_true, if_pos cmd]
  unfold shell
  rw [parts]
  exact if_pos ⟨rfl, rfl⟩

theorem command_rm {line path : String} (notInstall : startsWith line "install " = false)
    (notSet : startsWith line "set tw_signed_zip_verify " = false) (cmd : startsWith line "cmd " = true)
    (parts : words (substringAfter line "cmd ").toList [] = ["rm", path]) :
    r.command line = r.setFile path none := by
  rw [command, notInstall, notSet, if_neg Bool.false_ne_true, if_neg Bool.false_ne_true, if_pos cmd]
  unfold shell
  rw [parts]
  exact if_pos rfl

theorem command_keep : r.command "cmd cat /res/keys > /res/keys_org" =
    r.setFile "/res/keys_org" (some ((r.files "/res/keys").getD "")) :=
  r.command_cat (by decide) (by decide) (by decide) (by decide)

theorem command_inject : r.command "cmd cat /cache/recovery/keys > /res/keys" =
    r.setFile "/res/keys" (some ((r.files "/cache/recovery/keys").getD "")) :=
  r.command_cat (by decide) (by decide) (by decide) (by decide)

theorem command_restore : r.command "cmd cat /res/keys_org > /res/keys" =
    r.setFile "/res/keys" (some ((r.files "/res/keys_org").getD "")) :=
  r.command_cat (by decide) (by decide) (by decide) (by decide)

theorem command_discard : r.command "cmd rm /res/keys_org" = r.setFile "/res/keys_org" none :=
  r.command_rm (by decide) (by decide) (by decide) (by decide)

/-- What a script with these lines makes a recovery install, which has the keys
of `flashUpdate` in its cache. -/
theorem execute_openrecoveryscript {file keys : String} (injects : Bool) (plain : '\n' ∉ file.toList)
    (cached : injects = true → r.files "/cache/recovery/keys" = some keys) :
    (r.execute (unlines (openrecoveryscript injects true file []))).installs =
      r.installs ++ [{ file, verified := injects, keys := if injects then some keys else r.files "/res/keys" }] := by
  have installPlain : '\n' ∉ ("install " ++ file).toList := by
    rw [String.toList_append, List.mem_append]
    rintro (member | member)
    · exact absurd member (by decide)
    · exact plain member
  cases injects with
  | true =>
    have plainLines : ∀ s ∈ openrecoveryscript true true file [], '\n' ∉ s.toList := by
      simp only [openrecoveryscript, if_true, List.append_nil, List.cons_append, List.nil_append, List.forall_mem_cons]
      refine ⟨by decide, by decide, by decide, installPlain, by decide,
        by decide, by decide, by decide, nofun⟩
    rw [execute, lines_unlines plainLines]
    simp only [openrecoveryscript, if_true, List.append_nil, List.cons_append, List.nil_append, List.foldl_cons,
      List.foldl_nil, command_keep, command_inject, command_verify, command_install, command_trust, command_restore,
      command_discard, command_wipe]
    simp [install, setFile, cached]
  | false =>
    have plainLines : ∀ s ∈ openrecoveryscript false true file [], '\n' ∉ s.toList := by
      simp only [openrecoveryscript, if_true, if_false, Bool.false_eq_true, List.append_nil, List.cons_append,
        List.nil_append, List.forall_mem_cons]
      exact ⟨by decide, installPlain, by decide, nofun⟩
    rw [execute, lines_unlines plainLines]
    simp only [openrecoveryscript, if_true, if_false, Bool.false_eq_true, List.append_nil, List.cons_append,
      List.nil_append, List.foldl_cons, List.foldl_nil, command_install, command_trust, command_wipe]
    simp [install]

end Recovery

end OpenDelta.Flash
