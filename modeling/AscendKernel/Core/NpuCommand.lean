import AscendKernel.Library.Ledger

/-!
# Commands to the Operator Library

`EXEC_NPU_CMD`, through which an operator of the vendor's library is called.

A command looks two functions up, turns its parameters into objects of the
library, asks for the size of a workspace, calls the operator, and releases the
objects again. Nothing in C++ releases them but that last step, so what a
command leaves behind depends on how far it gets: an unsupported element type, a
bad status or a missing function ends it early.

The library itself is not part of the repository. Which functions it has is
`Libraries`, and what it answers to one command is a `Reply`; both can be
anything. What a command does to the library is a list of events. Looking a
function up is done once and kept, but always has the same result here, since
the libraries do not change.

An object is named by the command and the parameter it was made for. Parameters
are listed in the order in which they are converted, which C++ leaves open.

The operator is called by a handler that is given to `OpCommand::Run`, which is
not part of the repository either. It is taken to run the handler before it
returns, and to throw what the handler throws. So what a command does after
`Run`, which is to take the pool down, comes last here, and is not reached when
the handler fails.

## Main definitions

* `Libraries`, `getOpApiFuncAddr`: Where functions come from.
* `Param`, `Arg`: A parameter before and after its conversion.
* `NpuEvent`: Something done to the library.
* `NpuRun`: The events of a computation, and its result.
* `convertType`, `convertTypes`, `release`: What happens to parameters.
* `execConverted`, `execNpuCmd`: A command.
* `execNpuCmds`: Commands one after the other, whether they fail or not.
-/

namespace AscendKernel

/-- The functions of the two libraries, as far as these can be opened. -/
structure Libraries where
  cust : Option (String → Option ℕ)
  opApi : Option (String → Option ℕ)

/-- The custom library comes first. -/
def getOpApiFuncAddr (libs : Libraries) (apiName : String) : Option ℕ :=
  match libs.cust.bind fun lib => lib apiName with
  | some addr => some addr
  | none => libs.opApi.bind fun lib => lib apiName

/-- `at::ScalarType`. -/
inductive ScalarType where
  | byte | char | short | int | long | half | float | double
  | complexHalf | complexFloat | complexDouble | bool
  | qint8 | quint8 | qint32 | bfloat16 | quint4x2 | quint2x4
  | undefined | numOptions
  deriving DecidableEq

/-- `aclDataType`, as far as the table needs it. -/
inductive AclDataType where
  | uint8 | int8 | int16 | int32 | int64 | float16 | float | double
  | complex64 | complex128 | bool | bf16 | undefined
  deriving DecidableEq

def kATenScalarTypeToAclDataTypeTable : ScalarType → AclDataType
  | .byte => .uint8
  | .char => .int8
  | .short => .int16
  | .int => .int32
  | .long => .int64
  | .half => .float16
  | .float => .float
  | .double => .double
  | .complexHalf => .undefined
  | .complexFloat => .complex64
  | .complexDouble => .complex128
  | .bool => .bool
  | .qint8 => .undefined
  | .quint8 => .undefined
  | .qint32 => .undefined
  | .bfloat16 => .bf16
  | .quint4x2 => .undefined
  | .quint2x4 => .undefined
  | .undefined => .undefined
  | .numOptions => .undefined

/-- `c10::toString`. -/
def ScalarType.toString : ScalarType → String
  | byte => "Byte"
  | char => "Char"
  | short => "Short"
  | int => "Int"
  | long => "Long"
  | half => "Half"
  | float => "Float"
  | double => "Double"
  | complexHalf => "ComplexHalf"
  | complexFloat => "ComplexFloat"
  | complexDouble => "ComplexDouble"
  | bool => "Bool"
  | qint8 => "QInt8"
  | quint8 => "QUInt8"
  | qint32 => "QInt32"
  | bfloat16 => "BFloat16"
  | quint4x2 => "QUInt4x2"
  | quint2x4 => "QUInt2x4"
  | undefined => "UNKNOWN_SCALAR"
  | numOptions => "UNKNOWN_SCALAR"

/-- The kinds of objects, each with its own pair of functions. -/
inductive AclKind where
  | tensor
  | scalar
  | intArray
  | boolArray
  deriving DecidableEq

def AclKind.createName : AclKind → String
  | tensor => "aclCreateTensor"
  | scalar => "aclCreateScalar"
  | intArray => "aclCreateIntArray"
  | boolArray => "aclCreateBoolArray"

def AclKind.destroyName : AclKind → String
  | tensor => "aclDestroyTensor"
  | scalar => "aclDestroyScalar"
  | intArray => "aclDestroyIntArray"
  | boolArray => "aclDestroyBoolArray"

/-- What the conversion reads of a defined `at::Tensor`. -/
structure AtTensor where
  scalarType : ScalarType
  sizes : List ℕ
  strides : List ℕ
  storageOffset : ℕ
  itemsize : ℕ
  nbytes : ℕ
  storage : ℕ

/-- An `at::Scalar`, floating-point numbers by their bits. -/
inductive AtScalar where
  | double (bits : UInt64)
  | long (value : Int64)
  | bool (value : Bool)
  | complexDouble (re im : UInt64)
  deriving DecidableEq

def AtScalar.type : AtScalar → ScalarType
  | double _ => .double
  | long _ => .long
  | bool _ => .bool
  | complexDouble _ _ => .complexDouble

/-- A parameter of a command. An undefined tensor and an optional one that is
    missing are the same, and so for the other optional ones. What is not
    converted is a `value`. -/
inductive Param where
  | tensor (t : Option AtTensor)
  | scalar (s : Option AtScalar)
  | intArray (xs : Option (List Int64))
  | boolArray (bs : List Bool)
  | value

inductive AclFormat where
  | nd
  | ncl
  | nchw
  | ncdhw
  deriving DecidableEq

/-- What an object is made of. -/
inductive AclSource where
  | tensor (sizes : List ℕ) (dataType : AclDataType) (strides : List ℕ) (offset : ℕ)
      (format : AclFormat) (storageDims : List ℕ) (data : ℕ)
  | scalar (s : AtScalar) (dataType : AclDataType)
  | intArray (xs : List Int64)
  | boolArray (bs : List Bool)
  deriving DecidableEq

/-- An object of the library, by the command and the parameter it is for. -/
structure Handle where
  command : ℕ
  index : ℕ
  kind : AclKind
  deriving DecidableEq

/-- A converted parameter: an object, a null pointer, or the value itself. -/
inductive Arg where
  | object (h : Handle)
  | null (kind : AclKind)
  | value
  deriving DecidableEq

/-- The objects among converted parameters. -/
def objects (args : List Arg) : List Handle :=
  args.filterMap fun
    | .object h => some h
    | _ => none

/-- Something done to the library. -/
inductive NpuEvent where
  | initHugeMemThreadLocal
  | create (h : Handle) (source : AclSource)
  | getWorkspaceSize (args : List Arg)
  | emptyWorkspace (bytes : ℕ)
  | freeWorkspace
  | opApi (args : List Arg) (workspaceSize : ℕ)
  | destroy (h : Handle)
  | destroyNull (kind : AclKind)
  | releaseHugeMem
  | unInitHugeMemThreadLocal
  deriving DecidableEq

/-- How a command can fail. -/
inductive NpuFailure where
  | torchCheck (msg : String)
  | atError (msg : String)
  deriving DecidableEq

/-- The events of a computation, and its result. -/
structure NpuRun (α : Type) where
  events : List NpuEvent
  result : Except NpuFailure α

namespace NpuRun

variable {α β : Type}

def done (a : α) : NpuRun α := { events := [], result := .ok a }

/-- A computation goes on as long as nothing fails, and keeps its events when
    something does. -/
def andThen (r : NpuRun α) (f : α → NpuRun β) : NpuRun β :=
  match r.result with
  | .ok a => { events := r.events ++ (f a).events, result := (f a).result }
  | .error e => { events := r.events, result := .error e }

instance : Monad NpuRun where
  pure := done
  bind := andThen

def emit (es : List NpuEvent) : NpuRun Unit := { events := es, result := .ok () }

def fail (e : NpuFailure) : NpuRun α := { events := [], result := .error e }

/-- The `TORCH_CHECK` macro. -/
def torchCheck (cond : Bool) (msg : String) : NpuRun Unit :=
  if cond = true then done () else fail (.torchCheck msg)

end NpuRun

/-- The answers to one command: which objects the library makes, the status and
    size it reports for the workspace, what the allocation of the workspace
    throws, if it does, and what the operator returns. -/
structure Reply where
  makes : ℕ → Bool
  workspaceStatus : ℤ
  workspaceSize : ℕ
  workspaceError : Option String
  apiRet : ℤ
  recentErrMsg : String

section Convert

variable (libs : Libraries) (reply : Reply) (c : ℕ)

/-- Call a create function, for parameter `i`. -/
def create (i : ℕ) (kind : AclKind) (source : AclSource) : NpuRun Arg :=
  let h : Handle := { command := c, index := i, kind := kind }
  if reply.makes i = true then { events := [.create h source], result := .ok (.object h) }
  else .done (.null kind)

def formatOf (dimNum : ℕ) : AclFormat :=
  match dimNum with
  | 3 => .ncl
  | 4 => .nchw
  | 5 => .ncdhw
  | _ => .nd

/-- `ConvertType` on a tensor. -/
def convertTensor (i : ℕ) (t : AtTensor) : NpuRun Arg := do
  let aclDataType := kATenScalarTypeToAclDataTypeTable t.scalarType
  NpuRun.torchCheck (aclDataType != .undefined)
    (t.scalarType.toString ++ " has not been supported")
  if t.itemsize = 0 then
    .fail (.atError "When ConvertType, tensor item size of cannot be zero.")
  else
    create reply c i .tensor (.tensor t.sizes aclDataType t.strides t.storageOffset
      (formatOf t.sizes.length) [t.nbytes / t.itemsize] t.storage)

/-- `ConvertType` on a scalar. -/
def convertScalar (i : ℕ) (s : AtScalar) : NpuRun Arg := do
  let aclDataType := kATenScalarTypeToAclDataTypeTable s.type
  NpuRun.torchCheck (aclDataType != .undefined) (s.type.toString ++ " has not been supported")
  create reply c i .scalar (.scalar s aclDataType)

/-- A conversion, when the function that makes the object was found and there
    is something to convert. -/
def whenFound {α : Type} (kind : AclKind) (x : Option α) (convert : α → NpuRun Arg) :
    NpuRun Arg :=
  if (getOpApiFuncAddr libs kind.createName).isSome = true then
    x.elim (.done (.null kind)) convert
  else .done (.null kind)

/-- `ConvertType`, on parameter `i` of command `c`. -/
def convertType (i : ℕ) : Param → NpuRun Arg
  | .tensor t => whenFound libs .tensor t (convertTensor reply c i)
  | .scalar s => whenFound libs .scalar s (convertScalar reply c i)
  | .intArray xs => whenFound libs .intArray xs fun xs => create reply c i .intArray (.intArray xs)
  | .boolArray bs =>
    whenFound libs .boolArray (some bs) fun bs => create reply c i .boolArray (.boolArray bs)
  | .value => .done .value

/-- `ConvertTypes`, from parameter `i` on. -/
def convertTypes (i : ℕ) : List Param → NpuRun (List Arg)
  | [] => .done []
  | p :: ps => do
    let a ← convertType libs reply c i p
    let rest ← convertTypes (i + 1) ps
    .done (a :: rest)

/-- `Release`: objects and null pointers alike go to the destroy function, if
    there is one. -/
def release : Arg → List NpuEvent
  | .object h =>
    if (getOpApiFuncAddr libs h.kind.destroyName).isSome = true then [.destroy h] else []
  | .null kind =>
    if (getOpApiFuncAddr libs kind.destroyName).isSome = true then [.destroyNull kind] else []
  | .value => []

/-- An event that needs a function of the library. -/
def callIfFound (apiName : String) (e : NpuEvent) : NpuRun Unit :=
  if (getOpApiFuncAddr libs apiName).isSome = true then .emit [e] else .done ()

end Convert

/-- The workspace, when the library asks for one. The tensor goes out of scope
    before the operator runs; only its address is kept. -/
def allocWorkspace (reply : Reply) : NpuRun Unit :=
  if reply.workspaceSize = 0 then .done ()
  else
    match reply.workspaceError with
    | some msg => .fail (.atError msg)
    | none => .emit [.emptyWorkspace reply.workspaceSize, .freeWorkspace]

/-- A command: the operator called, and its parameters. -/
structure Command where
  name : String
  params : List Param

/-- `getWorkspaceSizeFuncAddr != nullptr && opApiFuncAddr != nullptr`. -/
def Command.found (libs : Libraries) (cmd : Command) : Bool :=
  (getOpApiFuncAddr libs (cmd.name ++ "GetWorkspaceSize")).isSome &&
    (getOpApiFuncAddr libs cmd.name).isSome

/-- `EXEC_NPU_CMD` once the parameters are converted. -/
def execConverted (libs : Libraries) (cmd : Command) (reply : Reply)
    (convertedParams : List Arg) : NpuRun Unit := do
  .emit [.getWorkspaceSize convertedParams]
  NpuRun.torchCheck (reply.workspaceStatus == 0)
    ("call " ++ cmd.name ++ " failed, detail:" ++ reply.recentErrMsg)
  allocWorkspace reply
  .emit [.opApi convertedParams reply.workspaceSize]
  NpuRun.torchCheck (reply.apiRet == 0)
    ("call " ++ cmd.name ++ " failed, detail:" ++ reply.recentErrMsg)
  .emit (convertedParams.flatMap (release libs))
  callIfFound libs "ReleaseHugeMem" .releaseHugeMem
  callIfFound libs "UnInitHugeMemThreadLocal" .unInitHugeMemThreadLocal

/-- `EXEC_NPU_CMD`, as the `c`-th command. -/
def execNpuCmd (libs : Libraries) (c : ℕ) (cmd : Command) (reply : Reply) : NpuRun Unit := do
  NpuRun.torchCheck (cmd.found libs)
    (cmd.name ++ " or " ++ cmd.name ++ "GetWorkspaceSize" ++ " not in " ++ "libopapi.so" ++
      ", or " ++ "libopapi.so" ++ "not found.")
  callIfFound libs "InitHugeMemThreadLocal" .initHugeMemThreadLocal
  let convertedParams ← convertTypes libs reply c 0 cmd.params
  execConverted libs cmd reply convertedParams

/-- Commands one after the other, from the `c`-th on: a caller may catch what a
    command throws and go on with the next. -/
def execNpuCmds (libs : Libraries) (c : ℕ) : List (Command × Reply) → List NpuEvent
  | [] => []
  | p :: ps => (execNpuCmd libs c p.1 p.2).events ++ execNpuCmds libs (c + 1) ps

end AscendKernel
