import Checklist.Proofs.FileTrees
import Checklist.Proofs.JsonTexts
import Checklist.Proofs.Utf8Texts
import Checklist.Settings

/-!
# Saved settings — what was saved is loaded again

Settings whose values are texts are saved as a record of texts (`toJson_ofTexts`), in a layout for
ASCII alone (`plain_prettyAscii`). The bytes of such a document are decoded as the document, and as
it has no carriage returns its newlines stay as they are (`Plain.readText`). Saving succeeds
wherever a file can be put once the directories above it are made (`exists_save_iff_writable`), and
then the settings are loaded from there (`load_save`).
-/

namespace Checklist

open Json

/-- Where a file can be put, once the directories above it are made. -/
def FileTree.Writable (tree : FileTree) (path : Path) : Prop :=
  ∃ above target, tree.makeDirectories path.parent = (above, .ok ()) ∧
    above.locate path = .ok target ∧ above.nodeAt target ≠ some .directory

/-! ## Plain documents -/

namespace Json

theorem Plain.toNat_lt {t : Text} (h : Plain t) {c : Char} (hc : c ∈ t) : c.toNat < 0x80 := by
  rcases h c hc with rfl | ⟨-, hle⟩
  · decide
  · have hlast : c.toNat ≤ 0x7E := hle
    omega

theorem Plain.return_not_mem {t : Text} (h : Plain t) : '\r' ∉ t := fun hmem =>
  absurd (h '\r' hmem) (by decide)

/-- A plain document is read from its file as it is. -/
theorem Plain.readText {t : Text} (h : Plain t) {file : File} (hfile : file.bytes = Utf8.encode t) :
    Notebook.readText file = .ok t := by
  rw [Notebook.readText, hfile, Utf8.decode_encode]
  exact congrArg Except.ok (Text.unifyNewlines_of_not_mem h.return_not_mem)

end Json

namespace Settings

/-! ## Settings as records of texts -/

/-- Settings as they are meant: each value is a text, and there may be no place for notes. -/
def ofTexts (style : TagStyle) (notes : Option Text) (query : Text) : Settings :=
  ⟨style, .ofText? notes, .text query⟩

section Texts

variable (style : TagStyle) (notes : Option Text) (query : Text)

/-- The members of the object that such settings are saved as. -/
def members : List (Text × Option Text) :=
  [("tag_style".toList, some style.name), ("notes_path".toList, notes),
    ("default_query".toList, some query)]

theorem toJson_ofTexts :
    (ofTexts style notes query).toJson = .object (ofTextMembers (members style notes query)) :=
  rfl

theorem nodup_names_members : ((members style notes query).map Prod.fst).Nodup := by
  have hnames : ["tag_style".toList, "notes_path".toList, "default_query".toList].Nodup := by decide
  exact hnames

/-- Settings are made from the object that they make. -/
theorem ofJson_toJson :
    ofJson (ofTexts style notes query).toJson = .ok (ofTexts style notes query) := by
  cases style <;> rfl

theorem ofDocument_prettyAscii (path : Path) :
    ofDocument path (ofTexts style notes query).toJson.prettyAscii =
      .ok (ofTexts style notes query) := by
  have hread : read (ofTexts style notes query).toJson.prettyAscii =
      .ok (ofTexts style notes query).toJson := by
    rw [toJson_ofTexts]
    exact read_write_texts ⟨true, true⟩ (nodup_names_members style notes query)
  rw [ofDocument, hread]
  exact ofJson_toJson style notes query

theorem plain_prettyAscii : Plain (ofTexts style notes query).toJson.prettyAscii := by
  rw [toJson_ofTexts]
  exact plain_write_texts rfl 0 (members style notes query)

end Texts

/-! ## Saving and loading -/

variable {tree after : FileTree} {path : Path}

theorem save_eq_ok_iff (s : Settings) :
    s.save tree path = (after, .ok ()) ↔
      ∃ above, tree.makeDirectories path.parent = (above, .ok ()) ∧
        above.writeFile path (Utf8.encode s.toJson.prettyAscii) = .ok after := by
  unfold save
  rcases hmade : tree.makeDirectories path.parent with ⟨above, made⟩
  cases made with
  | error e => simp
  | ok _ =>
      cases hwritten : above.writeFile path (Utf8.encode s.toJson.prettyAscii) <;> simp [hwritten]

/-- Saving succeeds wherever a file can be put, whatever the settings. -/
theorem exists_save_iff_writable (s : Settings) :
    (∃ after, s.save tree path = (after, .ok ())) ↔ tree.Writable path := by
  constructor
  · rintro ⟨after, hsave⟩
    obtain ⟨above, hmade, hwritten⟩ := (save_eq_ok_iff s).mp hsave
    obtain ⟨target, hlocate, hnode, -⟩ := FileTree.writeFile_eq_ok_iff.mp hwritten
    exact ⟨above, target, hmade, hlocate, hnode⟩
  · rintro ⟨above, target, hmade, hlocate, hnode⟩
    exact ⟨_, (save_eq_ok_iff s).mpr
      ⟨above, hmade, FileTree.writeFile_eq_ok_iff.mpr ⟨target, hlocate, hnode, rfl⟩⟩⟩

/-- Settings are loaded from what the file that the path leads to holds. -/
theorem load_of_readFile {file : File} {text : Text} (hfile : tree.readFile path = .ok file)
    (htext : Notebook.readText file = .ok text) : load tree path = ofDocument path text := by
  have hprobe : tree.probe path = .ok (some (.file file)) :=
    FileTree.probe_eq_some_iff.mpr (FileTree.readFile_eq_ok_iff.mp hfile)
  unfold load
  simp only [hprobe, hfile, htext]

/-- **Settings survive saving.** Saving succeeds at exactly the paths where a file can be put. Then
loading from the path gives the same settings, and the file is in ASCII alone. -/
theorem load_save (style : TagStyle) (notes : Option Text) (query : Text) (tree : FileTree)
    (path : Path) :
    ((∃ after, (ofTexts style notes query).save tree path = (after, .ok ())) ↔
      tree.Writable path) ∧
    ∀ after, (ofTexts style notes query).save tree path = (after, .ok ()) →
      load after path = .ok (ofTexts style notes query) ∧
        ∃ file, after.readFile path = .ok file ∧ ∀ byte ∈ file.bytes, byte < 0x80 := by
  refine ⟨exists_save_iff_writable _, fun after hsave => ?_⟩
  obtain ⟨above, -, hwritten⟩ := (save_eq_ok_iff _).mp hsave
  have hread := FileTree.readFile_of_writeFile hwritten
  have hplain := plain_prettyAscii style notes query
  refine ⟨?_, _, hread, fun byte hbyte => ?_⟩
  · rw [load_of_readFile hread (hplain.readText rfl)]
    exact ofDocument_prettyAscii style notes query path
  · exact Utf8.byte_lt_of_mem_encode (fun c hc => hplain.toNat_lt hc) hbyte

/-- Settings with characters that are escaped in every way, saved where no directory is yet. -/
theorem load_save_escapedCharacters :
    let s := ofTexts .bare none "\"todo\" \\ \t\n\x01 é €😀".toList
    let path := defaultPath [Utf8.encode "me".toList]
    ∃ after, s.save {} path = (after, .ok ()) ∧ load after path = .ok s ∧
      ∃ file, after.readFile path = .ok file ∧ ∀ byte ∈ file.bytes, byte < 0x80 := by
  have hsaved := load_save .bare none "\"todo\" \\ \t\n\x01 é €😀".toList {}
    (defaultPath [Utf8.encode "me".toList])
  have hwritable : FileTree.Writable {} (defaultPath [Utf8.encode "me".toList]) :=
    ⟨_, _, rfl, rfl, by decide⟩
  obtain ⟨after, hsave⟩ := hsaved.1.mpr hwritable
  exact ⟨after, hsave, hsaved.2 after hsave⟩

end Settings

end Checklist
