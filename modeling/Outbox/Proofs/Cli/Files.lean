import Outbox.Cli.Program

/-!
# Files that are read

What the program makes of a file is the value of its text, decoded (`Cli.of_readFile`). Where the
program has printed the file itself, the value is the one that was printed, if that can be read back
at all (`Json.ReadsBack`, `Cli.readFile_of_readsBack`).
-/

namespace Outbox

/-- A value that is read back from what a command prints of it. -/
def Json.ReadsBack (j : Json) : Prop := Json.read? (j.pretty ++ "\n") = some j

instance (j : Json) : Decidable j.ReadsBack := inferInstanceAs (Decidable (_ = _))

namespace Cli

variable {α : Type} {files : Files} {file : String} {focus : Focus} {decode : Decoder α} {x : α}

theorem of_readFile (h : readFile files focus decode file = .ok x) : ∃ j, decode j = .ok x := by
  unfold readFile at h
  split at h
  · cases h
  · split at h
    · rename_i hread
      cases h
      obtain ⟨j, -, hj⟩ := Option.map_eq_some_iff.mp hread
      exact ⟨j, hj⟩
    · cases h

theorem textOfBytes?_toUTF8 (text : String) : textOfBytes? text.toUTF8 = some text := by
  unfold textOfBytes? String.fromUTF8?
  rw [String.toUTF8_eq_toByteArray, dif_pos text.isValidUTF8]
  rfl

/-- A printed value is decoded as the value itself is. -/
theorem readFile_of_readsBack {j : Json} (hj : j.ReadsBack)
    (hfile : files file = some (j.pretty ++ "\n").toUTF8) (hx : decode j = .ok x) :
    readFile files .whole decode file = .ok x := by
  have htext : (files file).bind textOfBytes? = some (j.pretty ++ "\n") := by
    rw [hfile, Option.bind_some, textOfBytes?_toUTF8]
  have hread : Json.readFor? .whole (j.pretty ++ "\n") = some j := hj
  unfold readFile
  rw [htext]
  simp only [hread, Option.map_some, hx]

end Cli
end Outbox
