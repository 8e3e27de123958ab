import Protobus.Library.Postorder
import Protobus.Protoload.Imports

/-!
# The files that a plugin is given

Compiled files are registered, and handed to the plugins, with all that they import: `register` and
`add` walk the imports in the same way, remember the paths they have met, and take a file after its
imports. A plugin reads the files in their order and needs every import before the file.
-/
namespace Protobus.Generator
open Library Protoload

/-! ## The walks -/

/-- What is read of a descriptor besides its imports. -/
structure FileInfo where
  path : Bytes
  pkg : Bytes
  goPackage : Bytes

/-- A file with the files that it imports. -/
abbrev FileDescriptor := RoseTree FileInfo

/-- `Result`; `files` is the registry, in the order of registration. -/
structure LoadResult where
  files : List FileDescriptor
  compiled : List FileDescriptor

/-- The error, if there is one, of `RegisterFile` or `registerTypes` for a file after others. -/
def registerFile (conflict : List FileDescriptor → FileDescriptor → Option Bytes)
    (files : List FileDescriptor) (fd : FileDescriptor) : Except Bytes (List FileDescriptor) :=
  match conflict files fd with
  | some err => .error err
  | none => .ok (files ++ [fd])

/-- The end of `compile`, with the files that the compiler returned. -/
def compile (conflict : List FileDescriptor → FileDescriptor → Option Bytes)
    (files : List FileDescriptor) : Except Bytes LoadResult :=
  match RoseTree.visitAll FileInfo.path (registerFile conflict) files ([], []) with
  | .error err => .error (lit "protoload: " ++ err)
  | .ok (_, registered) => .ok ⟨registered, files⟩

/-- The parameter that gives a file its Go package, unless it has one. -/
def packageParam (goPackageFor : FileInfo → Except Bytes (Bytes × Bytes)) (f : FileInfo) :
    Except Bytes (List Bytes) :=
  if f.goPackage = [] ∧ f.path ≠ typesProtoPath then
    (goPackageFor f).map fun (imp, name) =>
      [lit "M" ++ f.path ++ lit "=" ++ imp ++ lit ";" ++ name]
  else .ok []

/-- `add`, after the imports: the lists `files` and `params`. -/
def addFile (goPackageFor : FileInfo → Except Bytes (Bytes × Bytes))
    (out : List FileDescriptor × List Bytes) (fd : FileDescriptor) :
    Except Bytes (List FileDescriptor × List Bytes) :=
  (packageParam goPackageFor fd.label).map fun param => (out.1 ++ [fd], out.2 ++ param)

/-- The parameters are not joined yet. -/
structure CodeGeneratorRequest where
  fileToGenerate : List Bytes
  params : List Bytes
  protoFile : List FileDescriptor

/-- The part of `generate` that puts the request together. -/
def request (modPath protoDir : Bytes) (goPackageFor : FileInfo → Except Bytes (Bytes × Bytes))
    (res : LoadResult) : Except Bytes CodeGeneratorRequest :=
  if res.compiled.isEmpty then .error (lit "no .proto files under " ++ protoDir)
  else do
    let (_, files, params) ←
      RoseTree.visitAll FileInfo.path (addFile goPackageFor) res.compiled ([], [], [])
    let custom := if res.files.any (·.label.path = customTypesPath) then [customTypesPath] else []
    .ok ⟨res.compiled.map (·.label.path) ++ custom, params ++ [lit "module=" ++ modPath], files⟩

/-! ## What they take -/

theorem registerFile_foldlM {conflict : List FileDescriptor → FileDescriptor → Option Bytes}
    {files registered registered' : List FileDescriptor}
    (h : files.foldlM (registerFile conflict) registered = .ok registered') :
    registered' = registered ++ files := by
  induction files generalizing registered with
  | nil =>
    cases h
    simp
  | cons fd files ih =>
    rw [List.foldlM_cons] at h
    cases next : registerFile conflict registered fd with
    | error err => simp [next, bind, Except.bind] at h
    | ok mid =>
      rw [next] at h
      unfold registerFile at next
      split at next
      · cases next
      · cases next
        simpa using ih h

variable (goPackageFor : FileInfo → Except Bytes (Bytes × Bytes))

/-- The parameters of a file for which a package is found. -/
def paramsOf (fd : FileDescriptor) : List Bytes :=
  match packageParam goPackageFor fd.label with
  | .ok params => params
  | .error _ => []

def packageError (fd : FileDescriptor) : Option Bytes :=
  match packageParam goPackageFor fd.label with
  | .ok _ => none
  | .error err => some err

variable {goPackageFor}

theorem addFile_foldlM (files : List FileDescriptor) (out : List FileDescriptor × List Bytes) :
    files.foldlM (addFile goPackageFor) out =
      match files.findSome? (packageError goPackageFor) with
      | some err => .error err
      | none => .ok (out.1 ++ files, out.2 ++ files.flatMap (paramsOf goPackageFor)) := by
  induction files generalizing out with
  | nil => simp [pure, Except.pure]
  | cons fd files ih =>
    rw [List.foldlM_cons, List.findSome?_cons, List.flatMap_cons, packageError, paramsOf, addFile]
    cases packageParam goPackageFor fd.label with
    | error err => rfl
    | ok param =>
      refine (ih _).trans ?_
      simp

/-- A schema's paths name its files. -/
abbrev PathsIdentify (files : List FileDescriptor) : Prop :=
  RoseTree.Identified FileInfo.path fun fd => ∃ f ∈ files, fd.Within f

/-- Whatever the compiled files import, directly or not: if they are registered without a conflict,
the registry holds exactly them and their imports, each once and after what it imports. The request
to the plugins then fails with the error of the first file in that order which has no Go package and
cannot be given one, and else it has the same files in the same order, a parameter for each file
without a package of its own, and only files that are among them to generate. -/
theorem request_in_dependency_order {conflict : List FileDescriptor → FileDescriptor → Option Bytes}
    {files : List FileDescriptor} {res : LoadResult} (ident : PathsIdentify files)
    (some_file : files ≠ []) (ok : compile conflict files = .ok res) (modPath protoDir : Bytes)
    (goPackageFor : FileInfo → Except Bytes (Bytes × Bytes)) :
    res.compiled = files ∧ (res.files.map (·.label.path)).Nodup ∧
    (∀ fd, fd ∈ res.files ↔ ∃ f ∈ files, fd.Within f) ∧
    (∀ before fd behind, res.files = before ++ fd :: behind → ∀ imp ∈ fd.children, imp ∈ before) ∧
    match res.files.findSome? (packageError goPackageFor) with
    | some err => request modPath protoDir goPackageFor res = .error err
    | none => ∃ req, request modPath protoDir goPackageFor res = .ok req ∧
        req.protoFile = res.files ∧
        req.params = res.files.flatMap (paramsOf goPackageFor) ++ [lit "module=" ++ modPath] ∧
        (∀ path ∈ req.fileToGenerate, path ∈ req.protoFile.map (·.label.path)) ∧
        ∀ f ∈ files, f.label.path ∈ req.fileToGenerate := by
  have compiled : res = ⟨(RoseTree.postorderAll FileInfo.path files []).2, files⟩ := by
    unfold compile at ok
    rw [RoseTree.visitAll_eq] at ok
    cases walked : (RoseTree.postorderAll FileInfo.path files []).2.foldlM
      (registerFile conflict) [] with
    | error err =>
      rw [walked] at ok
      cases ok
    | ok registered =>
      rw [walked] at ok
      cases ok
      simp [registerFile_foldlM walked]
  obtain ⟨distinct, within, first⟩ := RoseTree.postorderAll_spec ident
  subst compiled
  refine ⟨rfl, distinct, within, first, ?_⟩
  have listed : ∀ f ∈ files, f.label.path ∈
      (RoseTree.postorderAll FileInfo.path files []).2.map (·.label.path) := fun f mem =>
    List.mem_map_of_mem ((within f).mpr ⟨f, mem, .refl⟩)
  have nonempty : files.isEmpty = false := by simpa using some_file
  unfold request
  simp only [nonempty, Bool.false_eq_true, if_false, RoseTree.visitAll_eq, addFile_foldlM]
  cases (RoseTree.postorderAll FileInfo.path files []).2.findSome? (packageError goPackageFor) with
  | some err => rfl
  | none =>
    refine ⟨_, rfl, rfl, rfl, fun path mem => ?_, fun f mem => ?_⟩
    · obtain mem | mem := List.mem_append.mp mem
      · obtain ⟨f, given, rfl⟩ := List.mem_map.mp mem
        exact listed f given
      · split at mem
        · next custom =>
          obtain ⟨fd, mem', same⟩ := List.any_eq_true.mp custom
          obtain rfl := List.mem_singleton.mp mem
          exact List.mem_map.mpr ⟨fd, mem', by simpa using same⟩
        · cases mem
    · exact List.mem_append_left _ (List.mem_map_of_mem mem)

def baseFile : FileDescriptor := .node ⟨lit "base", lit "shop", []⟩ []

def orderFile : FileDescriptor := .node ⟨lit "order", lit "shop", []⟩ [baseFile]

/-- Both of its imports lead to the base. -/
def shopFile : FileDescriptor := .node ⟨lit "shop", lit "shop", lit "x/shop"⟩ [orderFile, baseFile]

theorem shop_identified : PathsIdentify [shopFile, orderFile] := by
  have three : ∀ fd, (∃ f ∈ [shopFile, orderFile], fd.Within f) →
      fd ∈ [baseFile, orderFile, shopFile] := by
    rintro fd ⟨f, mem, within⟩
    induction within with
    | refl =>
      simp only [List.mem_cons, List.not_mem_nil, or_false] at mem ⊢
      tauto
    | tail _ child ih =>
      simp only [List.mem_cons, List.not_mem_nil, or_false] at ih
      obtain rfl | rfl | rfl := ih
      · cases child
      · simp_all [RoseTree.children, orderFile]
      · simp only [RoseTree.children, shopFile, List.mem_cons, List.not_mem_nil,
          or_false] at child ⊢
        tauto
  constructor
  · rintro fd ⟨f, mem, within⟩ imp child
    exact ⟨f, mem, within.tail child⟩
  · intro fd fd' here there same
    have here := three fd here
    have there := three fd' there
    simp only [List.mem_cons, List.not_mem_nil, or_false] at here there
    obtain rfl | rfl | rfl := here <;> obtain rfl | rfl | rfl := there <;>
      first | rfl | exact absurd same (by decide)

theorem request_in_dependency_order_shop :
    ∃ res req, compile (fun _ _ => none) [shopFile, orderFile] = .ok res ∧
      request (lit "x") (lit "proto") (fun f => .ok (f.path, f.pkg)) res = .ok req ∧
      req.protoFile = [baseFile, orderFile, shopFile] ∧
      req.params = [lit "Mbase=base;shop", lit "Morder=order;shop", lit "module=x"] ∧
      lit "shop" ∈ req.fileToGenerate := by
  have ok : compile (fun _ _ => none) [shopFile, orderFile] =
      .ok ⟨[baseFile, orderFile, shopFile], [shopFile, orderFile]⟩ := rfl
  obtain ⟨-, -, -, -, req, ok', protoFile, params, -, targets⟩ := request_in_dependency_order
    shop_identified (by simp) ok (lit "x") (lit "proto") fun f => .ok (f.path, f.pkg)
  exact ⟨_, req, ok, ok', protoFile, params, targets shopFile (by simp)⟩

end Protobus.Generator
