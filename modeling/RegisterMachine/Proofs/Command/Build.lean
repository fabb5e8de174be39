import RegisterMachine.Command
import RegisterMachine.Proofs.Command.Name
import RegisterMachine.Proofs.Image.Wire
import RegisterMachine.Proofs.SourceUnit.Linking

/-!
# RegisterMachine.Proofs.Command.Build

To build an image and use it is to use its source.

* `ofCommandLine?_of_plain` -- a plain name behind the name of a command is its file, and does not
  matter for what the options say;
* `Gives` says that a file of either kind is read as an image: a source that assembles
  (`gives_of_assemble`), and the file that is built of it (`gives_of_ofBytes`);
* files that give the same image are run and listed alike (`response_run_eq`,
  `response_disassemble_eq`);
* `build_then_use` puts these together.
-/

namespace RegisterMachine

/-! ## Arguments -/

/-- The options among arguments without a file. -/
def Arguments.optionsOf? (arguments : List Argument) : Option (List Argument) :=
  let options := arguments.filter (·.optionName?.isSome)
  if arguments.filterMap (·.path?) = [] ∧ (options.filterMap (·.optionName?)).Nodup then
    some options
  else none

/-- A file in front leaves the options as they are. -/
theorem Arguments.ofList?_file {path : String} (hpath : path ≠ "") (arguments : List Argument) :
    Arguments.ofList? (.file path :: arguments) =
      (Arguments.optionsOf? arguments).map (Arguments.mk path) := by
  have hfiles : (Argument.file path :: arguments).filterMap (·.path?) =
      path :: arguments.filterMap (·.path?) := rfl
  have hoptions : (Argument.file path :: arguments).filter (·.optionName?.isSome) =
      arguments.filter (·.optionName?.isSome) := rfl
  rw [ofList?, hfiles, hoptions, optionsOf?]
  cases arguments.filterMap (·.path?) with
  | nil =>
      by_cases hnodup : ((arguments.filter (·.optionName?.isSome)).filterMap (·.optionName?)).Nodup
      · simp [hpath, hnodup]
      · simp [hnodup]
  | cons first rest => simp

/-- What does not start with a dash is a file. -/
theorem readArguments_file (forms : List OptionForm) {path : List Char}
    (hpath : path.head? ≠ some '-') (rest : List (List Char)) : readArguments forms (path :: rest) =
      (readArguments forms rest).map (.file (String.ofList path) :: ·) := by
  rw [readArguments.eq_def]
  split
  next => contradiction
  next heq =>
    cases heq
    contradiction
  next heq =>
    cases heq
    contradiction
  next heq =>
    cases heq
    contradiction
  next heq =>
    cases heq
    rfl

namespace Invocation

theorem ofCommandLine?_of_plain {name : String} (h : PlainName name) (command : String)
    (rest : List String) : ofCommandLine? (command :: name :: rest) =
      (do
        let forms ← forms command
        let arguments ← readArguments forms (rest.map String.toList)
        let options ← Arguments.optionsOf? arguments
        ofArguments? command ⟨name, options⟩) := by
  rw [ofCommandLine?]
  refine bind_congr fun forms => ?_
  rw [List.map_cons, readArguments_file forms h.dashless, String.ofList_toList]
  cases readArguments forms (rest.map String.toList) with
  | none => rfl
  | some arguments =>
      simp only [Option.map_some, Option.bind_eq_bind, Option.bind_some,
        Arguments.ofList?_file h.ne_empty, Option.bind_map]
      rfl

/-- What the options of a run say does not depend on its file. -/
theorem ofArguments?_run (options : List Argument) :
    ∃ choice : Option (Option Nat × Option String), ∀ file,
      ofArguments? "run" ⟨file, options⟩ = choice.map fun (limit, entry) =>
        .run file limit entry := by
  let entry := Arguments.value? ⟨"", options⟩ "entry"
  cases hlimit : Arguments.value? ⟨"", options⟩ "max-steps" with
  | none =>
      refine ⟨some (none, entry), fun file => ?_⟩
      have hsame : Arguments.value? ⟨file, options⟩ "max-steps" = none := hlimit
      simp only [ofArguments?, hsame]
      rfl
  | some text =>
      refine ⟨(readWord64? text).map fun limit => (some limit, entry), fun file => ?_⟩
      have hsame : Arguments.value? ⟨file, options⟩ "max-steps" = some text := hlimit
      simp only [ofArguments?, hsame, Option.map_map]
      rfl

end Invocation

/-! ## Files that give an image -/

/-- What stands under a name is read as an image, whatever is done with it. -/
def Directory.Gives (d : Directory) (name : String) (image : Image) : Prop :=
  ∀ next, (Plan.readImage name next).perform d = (next image).perform d

section Gives

variable {d : Directory} {name content : String} {image : Image}

theorem perform_readAssembled (hread : d.read name = .ok (utf8Bytes content))
    (h : (SourceUnit.ofContent name content).assemble = .ok image) (next : Image → Plan) :
    (Plan.readAssembled name next).perform d = (next image).perform d := by
  have hchecked : (SourceUnit.ofContent name content).analyze.checkedImage = .ok image := h
  simp only [Plan.readAssembled, Plan.readSource, Plan.perform, hread, textOfUtf8?_utf8Bytes,
    hchecked]

theorem gives_of_assemble (hextension : extension? name ≠ some imageExtension)
    (hread : d.read name = .ok (utf8Bytes content))
    (h : (SourceUnit.ofContent name content).assemble = .ok image) : d.Gives name image := by
  intro next
  rw [Plan.readImage, if_neg hextension, perform_readAssembled hread h]

theorem gives_of_ofBytes {bytes : List UInt8} (hextension : extension? name = some imageExtension)
    (hread : d.read name = .ok bytes) (h : Image.ofBytes bytes = .ok image) :
    d.Gives name image := by
  intro next
  rw [Plan.readImage, if_pos hextension]
  simp only [Plan.readBuilt, Plan.perform, hread, h]

variable {d' : Directory} {name' : String}

/-- Files that give the same image are run alike. -/
theorem response_run_eq (h : d.Gives name image) (h' : d'.Gives name' image) (limit : Option Nat)
    (entry : Option String) : ((Invocation.run name limit entry).plan.perform d).1 =
      ((Invocation.run name' limit entry).plan.perform d').1 := by
  rw [Invocation.plan, Invocation.plan, h, h']
  cases image.startOf? entry <;> rfl

/-- And they are listed alike. -/
theorem response_disassemble_eq (h : d.Gives name image) (h' : d'.Gives name' image) :
    ((Invocation.disassemble name).plan.perform d).1 =
      ((Invocation.disassemble name').plan.perform d').1 := by
  rw [Invocation.plan, Invocation.plan, h, h']
  rfl

/-- A run of files that give the same image, whatever the options. -/
theorem response_run_command_eq (h : d.Gives name image) (h' : d'.Gives name' image)
    (hname : PlainName name) (hname' : PlainName name') (options : List String) :
    ((commandPlan ("run" :: name :: options)).perform d).1 =
      ((commandPlan ("run" :: name' :: options)).perform d').1 := by
  rw [commandPlan, commandPlan, Invocation.ofCommandLine?_of_plain hname,
    Invocation.ofCommandLine?_of_plain hname']
  cases Invocation.forms "run" with
  | none => rfl
  | some forms =>
      simp only [Option.bind_eq_bind, Option.bind_some]
      cases readArguments forms (options.map String.toList) with
      | none => rfl
      | some arguments =>
          simp only [Option.bind_some]
          cases Arguments.optionsOf? arguments with
          | none => rfl
          | some options =>
              obtain ⟨choice, hchoice⟩ := Invocation.ofArguments?_run options
              simp only [Option.bind_some, hchoice]
              cases choice with
              | none => rfl
              | some choice => exact response_run_eq h h' choice.1 choice.2

end Gives

theorem commandPlan_build {name : String} (h : PlainName name) :
    commandPlan ["build", name] = (Invocation.build name none).plan := by
  rw [commandPlan, Invocation.ofCommandLine?_of_plain h, List.map_nil]
  simp only [Invocation.forms, readArguments]
  rfl

theorem commandPlan_disassemble {name : String} (h : PlainName name) :
    commandPlan ["disasm", name] = (Invocation.disassemble name).plan := by
  rw [commandPlan, Invocation.ofCommandLine?_of_plain h, List.map_nil]
  simp only [Invocation.forms, readArguments]
  rfl

/-! ## Building -/

/-- A source text that assembles stands under a plain name that is none of an image. -/
structure Directory.HoldsSource (d : Directory) (name content : String) (image : Image) : Prop where
  plain : PlainName name
  extension : extension? name ≠ some imageExtension
  read : d.read name = .ok (utf8Bytes content)
  assembles : (SourceUnit.ofContent name content).assemble = .ok image

/-- A file can be written under a name. -/
structure Directory.Writable (d : Directory) (name : String) : Prop where
  size : name.utf8ByteSize ≤ nameLimit
  node : d.node [name] ≠ .directory

/-- The name of an image with a stem. -/
def imageName (stem : String) : String :=
  stem ++ "." ++ imageExtension

section Build

variable {d : Directory} {name stem content : String} {image : Image}

/-- A build writes the image behind the stem of its source, and says so or why it cannot. -/
theorem perform_build (hsource : d.HoldsSource name content image) (hstem : IsStem name stem)
    (hdot : stem ≠ ".") :
    (commandPlan ["build", name]).perform d =
      match d.write (imageName stem) image.toBytes with
      | .ok after => (.success (Invocation.builtLine image (imageName stem)), after)
      | .error cause =>
        (.failure "" ("Failed to write '" ++ imageName stem ++ "': image i/o error: " ++
          cause.message), d) := by
  rw [commandPlan_build hsource.plain, Invocation.plan,
    perform_readAssembled hsource.read hsource.assembles, Option.getD_none,
    withExtension_of_isStem hsource.plain hstem hdot, Plan.perform, ← imageName]
  cases d.write (imageName stem) image.toBytes <;> rfl

theorem Directory.HoldsSource.gives (h : d.HoldsSource name content image) : d.Gives name image :=
  gives_of_assemble h.extension h.read h.assembles

/-- The image of a source is the one that its own bytes load as. -/
theorem Directory.HoldsSource.ofBytes_eq (h : d.HoldsSource name content image)
    (hfits : image.Fits) :
    Image.ofBytes image.toBytes = .ok image :=
  ofBytes_toBytes hfits (version_of_assembleProgram (SourceUnit.assemble_eq_ok_iff.1 h.assembles).2)

/-- **To build an image and use it is to use its source.** Let a source text that assembles stand
under a plain name, and let it be possible to write under the name with its extension replaced. Then
a build succeeds and changes this one file only, whose bytes load as the image; and to run it, with
whatever options, or to list it gives the same answer as for the source. -/
theorem build_then_use (hsource : d.HoldsSource name content image) (hfits : image.Fits)
    (hstem : IsStem name stem) (hdot : stem ≠ ".") (hwritable : d.Writable (imageName stem)) :
    let answer (line : List String) (d : Directory) : Response := ((commandPlan line).perform d).1
    let after := ((commandPlan ["build", name]).perform d).2
    (answer ["build", name] d).exit = 0 ∧
      (∀ parts, after.node parts =
        if parts = [imageName stem] then .file image.toBytes else d.node parts) ∧
      Image.ofBytes image.toBytes = .ok image ∧
      ∀ d' ∈ [d, after],
        (∀ options, answer ("run" :: imageName stem :: options) after =
          answer ("run" :: name :: options) d') ∧
        answer ["disasm", imageName stem] after = answer ["disasm", name] d' := by
  intro answer after
  have htarget : PlainName (imageName stem) :=
    hstem.plainName_pointed hsource.plain (by decide) (by decide)
  have hbuild := perform_build hsource hstem hdot
  rw [Directory.write_of_plain htarget hwritable.size hwritable.node] at hbuild
  have hnode (parts : List String) : after.node parts =
      if parts = [imageName stem] then .file image.toBytes else d.node parts := by
    rw [← Directory.node_put]
    exact congrArg (fun result => result.2.node parts) hbuild
  have hofBytes := hsource.ofBytes_eq hfits
  have hextension : extension? (imageName stem) = some imageExtension :=
    extension?_append htarget (hstem.ne_empty hsource.plain) (by decide)
  have hread := Directory.read_of_node htarget hwritable.size ((hnode _).trans (if_pos rfl))
  have hbuilt : after.Gives (imageName stem) image := gives_of_ofBytes hextension hread hofBytes
  have hsource' : after.HoldsSource name content image := by
    obtain ⟨hsize, hfile⟩ := Directory.node_of_read hsource.plain hsource.read
    have hother : [name] ≠ [imageName stem] := by
      intro heq
      rw [List.singleton_inj.1 heq] at hsource
      exact hsource.extension hextension
    refine { hsource with read := Directory.read_of_node hsource.plain hsize ?_ }
    rw [hnode, if_neg hother, hfile]
  refine ⟨congrArg (·.1.exit) hbuild, hnode, hofBytes, fun d' hd' => ?_⟩
  have hsame : d'.Gives name image := by
    rcases List.mem_pair.1 hd' with rfl | rfl
    · exact hsource.gives
    · exact hsource'.gives
  refine ⟨response_run_command_eq hbuilt hsame htarget hsource.plain, ?_⟩
  simp only [answer, commandPlan_disassemble htarget, commandPlan_disassemble hsource.plain]
  exact response_disassemble_eq hbuilt hsame

end Build

/-- A name of 252 bytes, to which no extension can be given. -/
def longName : String :=
  String.ofList (List.replicate 252 'p')

theorem toList_longName : longName.toList = List.replicate 252 'p' :=
  String.toList_ofList

theorem plainName_longName : PlainName longName where
  normal := normal_of_length (by rw [toList_longName, List.length_replicate]; decide)
  slashless := by rw [toList_longName]; decide
  dashless := by rw [toList_longName]; decide

theorem pointless_longName : '.' ∉ longName.toList.tail := by
  rw [toList_longName]
  decide

/-- A source text whose name is too long to be given an extension is not built. -/
theorem build_of_longName : ¬ ∀ d name content image,
    Directory.HoldsSource d name content image →
      ((commandPlan ["build", name]).perform d).1.exit = 0 := by
  intro hall
  let content := "proc p halt end"
  let d : Directory := ⟨[([longName], utf8Bytes content)]⟩
  let image : Image := ⟨Image.currentVersion, [44], [⟨"p", 0⟩]⟩
  have hsize : longName.utf8ByteSize ≤ nameLimit := by decide +kernel
  have hfile : d.node [longName] = .file (utf8Bytes content) := by simp [d, Directory.node]
  have hsource : d.HoldsSource longName content image := by
    refine ⟨plainName_longName, ?_, Directory.read_of_node plainName_longName hsize hfile, ?_⟩
    · rw [extension?_eq_none plainName_longName pointless_longName]
      exact Option.some_ne_none _ ∘ Eq.symm
    · decide +kernel
  have hstem : IsStem longName longName := .pointless pointless_longName
  have hbuild := perform_build hsource hstem (by decide +kernel)
  have htarget : PlainName (imageName longName) :=
    hstem.plainName_pointed plainName_longName (by decide) (by decide)
  rw [Directory.write, Directory.locate_of_long d .writing htarget (by decide +kernel)] at hbuild
  have hexit := hall d longName content image hsource
  rw [hbuild] at hexit
  exact absurd hexit (by decide)

/-- A source text of one procedure, built and run with whatever options. -/
theorem build_then_use_of_halt :
    let d : Directory := ⟨[(["p.asm"], utf8Bytes "proc p halt end")]⟩
    let after := ((commandPlan ["build", "p.asm"]).perform d).2
    d.Writable (imageName "p") ∧ after.node ["p.rvm"] = .file [1, 1, 44, 1, 1, 112, 0] ∧
      ∀ options, ((commandPlan ("run" :: "p.rvm" :: options)).perform after).1 =
        ((commandPlan ("run" :: "p.asm" :: options)).perform d).1 := by
  intro d after
  let image : Image := ⟨Image.currentVersion, [44], [⟨"p", 0⟩]⟩
  have hplain : PlainName "p.asm" := ⟨by decide, by decide, by decide⟩
  have hsource : d.HoldsSource "p.asm" "proc p halt end" image :=
    ⟨hplain, by decide +kernel, by decide +kernel, by decide +kernel⟩
  have hfits : image.Fits := ⟨by decide, by decide, by decide⟩
  have hstem : IsStem ("p" ++ "." ++ "asm") "p" := .before (by decide) (by decide)
  have hwritable : d.Writable (imageName "p") := ⟨by decide +kernel, by decide +kernel⟩
  obtain ⟨-, hnode, -, huse⟩ := build_then_use hsource hfits hstem (by decide) hwritable
  have hfile : after.node ["p.rvm"] = .file image.toBytes := (hnode ["p.rvm"]).trans (if_pos rfl)
  have hbytes : image.toBytes = [1, 1, 44, 1, 1, 112, 0] := by decide +kernel
  exact ⟨hwritable, hfile.trans (congrArg Node.file hbytes), (huse d List.mem_cons_self).1⟩

end RegisterMachine
