import Scrawl.Proofs.File.Swap
import Scrawl.Proofs.Live.Accounts
import Scrawl.Proofs.Svg.Reading

/-!
# Scrawl.Proofs.Live.FileSurface — a surface in a file, call by call

Whatever is made to fail in whichever call: who looks at the file of a surface sees what stood there
at first or the whole text of the scene that was mounted last, and what the surface says that it
shows is that scene.

* `fileText_eq`: the text in a file ends with one line feed.
* `replace_cases`: what one call does; `follows_replace`, `follows_run`: what calls come to.
* `run_file`: a session mounts scenes by calls in which nothing is made to fail.
* `replace_swaps`: the disks on the way of a call behind any calls, and the surface at its end.
-/

namespace Scrawl.Live

open File (Beside Disk Entry Path Place Refusal Swapped)

/-! ### The text of a scene -/

/-- **The text in a file is that of the scene and one line feed**, because the scene ends with a
bracket. -/
theorem fileText_eq (scene : Scene) : Mount.fileText scene = scene.toSvg ++ "\n" ∧
    ∃ cs, scene.toSvg.toList = cs ++ ['>'] := by
  obtain ⟨cs, hcs⟩ := Svg.chars_eq_concat 0 scene.root
  have htext : scene.toSvg.toList = cs ++ ['>'] := by
    rw [Scene.toSvg, Svg.Element.render, String.toList_ofList, hcs]
  have hends : scene.toSvg.endsWith "\n" = false := by
    rw [String.endsWith_eq_endsWith_toSlice, String.Slice.endsWith_string_eq_false_iff]
    rintro ⟨before, hbefore⟩
    rw [String.copy_toSlice, htext] at hbefore
    have hlast := congrArg List.getLast? hbefore
    simp at hlast
  refine ⟨?_, cs, htext⟩
  rw [Mount.fileText]
  simp [hends]

/-! ### Calls -/

/-- A surface in a file: the disk with the file, and what the surface says that it shows. -/
structure FileSurface where
  disk : Disk
  shown : Shown := {}

/-- A scene to be mounted, and what is made to fail on the way. -/
structure Mounting where
  scene : Scene
  hindrance : File.Hindrance := {}

/-- The bytes of a scene in a file. -/
def bytesOf (scene : Scene) : List UInt8 := Text.Utf8.encode (Mount.fileText scene)

namespace FileSurface

variable {target : Path} {s s' s'' : FileSurface} {a b : List Scene}

/-- The swap of a call. -/
def swap (target : Path) (s : FileSurface) (c : Mounting) : File.Swap :=
  File.swap c.hindrance s.disk target (bytesOf c.scene)

/-- The surface behind a call. -/
def replace (target : Path) (s : FileSurface) (c : Mounting) : FileSurface :=
  { disk := (s.swap target c).disk s.disk
    shown :=
      match (s.swap target c).fault with
      | some _ => s.shown
      | none => ⟨some c.scene, s.shown.generation + 1⟩ }

/-- The surface behind calls. -/
def run (target : Path) (s : FileSurface) (calls : List Mounting) : FileSurface :=
  calls.foldl (replace target) s

/-- The scene of a call, if it is mounted. -/
def mountedBy (target : Path) (s : FileSurface) (c : Mounting) : List Scene :=
  match (s.swap target c).fault with
  | some _ => []
  | none => [c.scene]

/-- The scenes that calls mount, in order. -/
def mounted (target : Path) : FileSurface → List Mounting → List Scene
  | _, [] => []
  | s, c :: calls => s.mountedBy target c ++ mounted target (s.replace target c) calls

/-- What stands at the end of the target's path behind scenes that are mounted there. -/
def contentBehind (start : Except Refusal Entry) (scenes : List Scene) : Except Refusal Entry :=
  match scenes.getLast? with
  | none => start
  | some scene => .ok (.file (bytesOf scene))

theorem contentBehind_append (start : Except Refusal Entry) (a b : List Scene) :
    contentBehind (contentBehind start a) b = contentBehind start (a ++ b) := by
  unfold contentBehind
  rw [List.getLast?_append]
  cases b.getLast? <;> rfl

/-- **A call fails and leaves the surface as it was, or it mounts its scene**; then nothing of it
was made to fail, and nothing else on the disk is changed. -/
theorem replace_cases (target : Path) (s : FileSurface) (c : Mounting) :
    ((s.swap target c).fault.isSome ∧ s.replace target c = s ∧ s.mountedBy target c = []) ∨
    ((s.swap target c).fault = none ∧
      (c.hindrance.create = none ∧ c.hindrance.write = none ∧ c.hindrance.rename = none) ∧
      s.mountedBy target c = [c.scene] ∧
      (s.replace target c).shown = ⟨some c.scene, s.shown.generation + 1⟩ ∧
      ∃ place, s.disk.place target = .ok place ∧ s.disk.entry? place ≠ some .folder ∧
        (s.replace target c).disk.place target = .ok place ∧
        (s.replace target c).disk.find target = .ok (.file (bytesOf c.scene)) ∧
        ∀ p ≠ place, Disk.entry? (s.replace target c).disk p = s.disk.entry? p) := by
  have hswap := File.swapped_swap c.hindrance s.disk target (bytesOf c.scene)
  change Swapped c.hindrance s.disk target (bytesOf c.scene) (s.swap target c) at hswap
  unfold replace mountedBy File.Swap.disk
  generalize s.swap target c = swap at hswap
  cases hswap with
  | failed hpassed hend =>
    refine Or.inl ⟨rfl, ?_, rfl⟩
    dsimp only
    rw [hend]
  | done hcreate hwrite hrename hpassed hparent hfolder hplace hfile hend =>
    obtain ⟨hsame, hfind⟩ := File.find_of_put hparent hfolder hplace hfile
    dsimp only
    rw [hend]
    exact Or.inr ⟨rfl, ⟨hcreate, hwrite, hrename⟩, rfl, rfl, _, hplace, hfile, hsame, hfind,
      fun p hp => Disk.stands_put_of_ne hp⟩

/-! ### What calls come to -/

/-- What has become of a surface once scenes are mounted on it: it shows the last one, and so does
its file; everything else on the disk is as it was. -/
structure Follows (target : Path) (s : FileSurface) (scenes : List Scene) (s' : FileSurface) :
    Prop where
  shown : s'.shown = s.shown.behind scenes
  content : s'.disk.find target = contentBehind (s.disk.find target) scenes
  place : s'.disk.place target = s.disk.place target
  elsewhere : ∀ p, s.disk.place target ≠ .ok p → s'.disk.entry? p = s.disk.entry? p

theorem follows_refl (target : Path) (s : FileSurface) : Follows target s [] s :=
  ⟨rfl, rfl, rfl, fun _ _ => rfl⟩

theorem Follows.trans (h : Follows target s a s') (h' : Follows target s' b s'') :
    Follows target s (a ++ b) s'' where
  shown := by rw [h'.shown, h.shown, Shown.behind_append]
  content := by rw [h'.content, h.content, contentBehind_append]
  place := h'.place.trans h.place
  elsewhere p hp := (h'.elsewhere p (h.place ▸ hp)).trans (h.elsewhere p hp)

theorem follows_replace (target : Path) (s : FileSurface) (c : Mounting) :
    Follows target s (s.mountedBy target c) (s.replace target c) := by
  rcases replace_cases target s c with
    ⟨-, hsame, hnone⟩ | ⟨-, -, hscene, hshown, place, hplace, -, hstays, hfind, helse⟩
  · rw [hsame, hnone]
    exact follows_refl target s
  · rw [hscene]
    refine ⟨hshown, hfind, hstays.trans hplace.symm, fun p hp => helse p ?_⟩
    rintro rfl
    exact hp hplace

/-- What calls come to goes by the scenes that they mount. -/
theorem follows_run (target : Path) (s : FileSurface) (calls : List Mounting) :
    Follows target s (s.mounted target calls) (s.run target calls) := by
  induction calls generalizing s with
  | nil => exact follows_refl target s
  | cons c calls ih => exact (follows_replace target s c).trans (ih (s.replace target c))

/-- A session mounts a scene on a surface in a file by a call in which nothing is made to fail. -/
theorem run_file {τ κ : Type} [DecidableEq κ] {w : Workshop κ} {v : κ}
    (hmount : w.mount v = Mount.file target) (session : Session τ κ) {text : String} {scene : Scene}
    (hrender : (w.render text).result = .ok scene) :
    (⟨(session.run w v text).2.disk, (session.run w v text).2.shown v⟩ : FileSurface) =
      replace target ⟨session.disk, session.shown v⟩ ⟨scene, {}⟩ := by
  have hfile : Mount.file target scene session.disk =
      match (swap target ⟨session.disk, session.shown v⟩ ⟨scene, {}⟩).fault with
      | some fault => .error (.disk fault)
      | none => .ok (replace target ⟨session.disk, session.shown v⟩ ⟨scene, {}⟩).disk := rfl
  unfold Session.run
  dsimp only
  rw [hrender]
  dsimp only
  rw [hmount, hfile]
  rcases replace_cases target ⟨session.disk, session.shown v⟩ ⟨scene, {}⟩ with
    ⟨hfault, hsame, -⟩ | ⟨hfault, -, -, hshown, -⟩
  · obtain ⟨fault, hfault⟩ := Option.isSome_iff_exists.mp hfault
    rw [hfault, hsame]
    dsimp only
    split_ifs <;> rfl
  · rw [hfault]
    dsimp only [Session.mounted]
    rw [if_pos rfl, ← hshown]

/-- **A surface in a file is replaced as a whole or not at all.**  Behind any calls, whatever was
made to fail in them, and on the way of the next one: the file is what it was at first or the whole
text of the last scene mounted, which is the one shown, and on the disk there is nothing new but
one temporary file while a call goes on.  A call that fails leaves the surface and the disk as they
were; one that does not fail mounts its scene, and nothing was made to fail in it. -/
theorem replace_swaps (target : Path) (s : FileSurface) (calls : List Mounting) (c : Mounting) :
    let scenes := s.mounted target calls
    let before := s.run target calls
    let swap := before.swap target c
    let after := before.replace target c
    Follows target s scenes before ∧
    (∀ d ∈ swap.passed.dropLast,
      d.find target = contentBehind (s.disk.find target) scenes ∧
      ∃ temporary, before.disk.entry? temporary = none ∧
        ∀ p ≠ temporary, d.entry? p = before.disk.entry? p) ∧
    after.disk = swap.passed.getLastD before.disk ∧
    (swap.fault.isSome ∧ after = before ∨
      swap.fault = none ∧ Follows target before [c.scene] after ∧
      before.disk.find target ≠ .ok .folder ∧
      c.hindrance.create = none ∧ c.hindrance.write = none ∧ c.hindrance.rename = none) ∧
    Mount.fileText c.scene = c.scene.toSvg ++ "\n" ∧ ∃ cs, c.scene.toSvg.toList = cs ++ ['>'] := by
  intro scenes before swap after
  have hfollows : Follows target s scenes before := follows_run target s calls
  have hstep := follows_replace target before c
  refine ⟨hfollows, fun d hd => ?_, rfl, ?_, fileText_eq c.scene⟩
  · have hbeside := File.beside_of_mem
      (File.swapped_swap c.hindrance before.disk target (bytesOf c.scene)) hd
    obtain ⟨hfind, hplaces⟩ := File.find_of_beside hbeside
    exact ⟨hfind.trans hfollows.content, hplaces⟩
  · rcases replace_cases target before c with
      ⟨hfault, hsame, -⟩ | ⟨hfault, hindrance, hscene, -, place, hplace, hfile, -⟩
    · exact Or.inl ⟨hfault, hsame⟩
    · rw [hscene] at hstep
      refine Or.inr ⟨hfault, hstep, ?_, hindrance⟩
      rw [File.find_of_place hplace]
      cases hentry : before.disk.entry? place with
      | none => nofun
      | some e => exact fun heq => hfile (hentry.trans (congrArg some (Except.ok.inj heq)))

/-- An empty drawing. -/
def blank : Scene := ⟨.leaf "svg" [] "", 0.0, 0.0⟩

/-- What a call has mounted stays when the renaming of the next one fails. -/
theorem replace_swaps_hindered :
    let s : FileSurface := { disk := { home := ["work"] } }
    let target := Path.ofString "drawing.svg"
    let after := s.run target [⟨blank, {}⟩, ⟨blank, { rename := some .busy }⟩]
    after.shown.generation = 1 ∧ after.disk.find target = .ok (.file (bytesOf blank)) := by
  intro s target after
  have hfault : (s.swap target ⟨blank, {}⟩).fault = none := by decide +kernel
  have hmounted : s.mounted target [⟨blank, {}⟩] = [blank] := by
    rw [mounted, mounted, mountedBy, hfault]
    rfl
  obtain ⟨hfollows, -, -, ⟨-, hsame⟩ | ⟨-, -, -, -, -, hrename⟩, -⟩ :=
    replace_swaps target s [⟨blank, {}⟩] ⟨blank, { rename := some .busy }⟩
  · rw [hmounted] at hfollows
    have hafter : after = s.run target [⟨blank, {}⟩] := hsame
    rw [hafter]
    exact ⟨congrArg Shown.generation hfollows.shown, hfollows.content⟩
  · cases hrename

end FileSurface

end Scrawl.Live
