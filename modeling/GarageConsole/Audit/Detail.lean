import GarageConsole.Foundations.JsonTokens
import GarageConsole.Foundations.Path
import GarageConsole.Permissions.BucketKeys
import GarageConsole.RepairGuard.Guard

/-! # What the audit log says about a request

`auditDetail` reads the first bytes of the body of some routes and notes a few of its fields. Each route has
an extractor of its own. Most decode the whole body; the two that list object keys or block hashes read it
token by token (`stringArraySummary`), so that a body that is cut off can still be counted up to there.
-/

namespace GarageConsole.Audit

open Foundations Foundations.Text Foundations.GoJson Foundations.JsonTokens GarageConsole.Garage
  GarageConsole.Permissions GarageConsole.RepairGuard

set_option autoImplicit false

def maxAuditBodyBytes : ℕ := 4096

def auditPreviewItems : ℕ := 5

def auditMaxValueBytes : ℕ := 256

/-- The fields of a detail; none is no detail. -/
abbrev Detail := List (String × Json)

/-! ## Values -/

/-- The last position up to `n` where a character of the text starts. -/
def cutAt (s : Bytes) : ℕ → ℕ
  | 0 => 0
  | n + 1 => if isContinuation (s.getD (n + 1) 0) then cutAt s n else n + 1

def truncateUTF8 (s : String) (n : ℕ) : String :=
  if (bytes s).length ≤ n then s else toText ((bytes s).take (cutAt (bytes s) n))

def isLetter (c : Char) : Bool := ('A' ≤ c && c ≤ 'Z') || ('a' ≤ c && c ≤ 'z')

def isDecimal (c : Char) : Bool := '0' ≤ c && c ≤ '9'

/-- `^[A-Za-z][A-Za-z0-9_-]{0,63}$` -/
def auditSafeToken (s : String) : Bool :=
  match s.toList with
  | [] => false
  | c :: cs => isLetter c && cs.length ≤ 63 && cs.all fun d => isLetter d || isDecimal d || d = '_' || d = '-'

/-- `^[A-Za-z0-9._-]{8,32}$` -/
def auditKeyIDToken (s : String) : Bool :=
  8 ≤ s.toList.length && s.toList.length ≤ 32 &&
    s.toList.all fun d => isLetter d || isDecimal d || d = '.' || d = '_' || d = '-'

/-! ## Lists of strings -/

section Summary

variable (itemsField countField : String) (complete : Bool)

def strings (items : List String) : Json := .arr (items.map .str)

def countOf (n : ℕ) : Json := .num (.int n)

/-- One more item, as long as there are few. -/
def addItem (items : List String) (s : String) : List String :=
  if items.length < auditPreviewItems then items ++ [truncateUTF8 s auditMaxValueBytes] else items

/-- The loop after `n` items. -/
def summaryLoop : ℕ → Bytes → ℕ → List String → Detail
  | 0, _, _, _ => []
  | fuel + 1, bs, n, items =>
    match arrayToken (n = 0) bs with
    | .error =>
      if complete || n = 0 then []
      else [(countField ++ "AtLeast", countOf n), ("truncated", .bool true), (itemsField, strings items)]
    | .close => [(countField, countOf n), (itemsField, strings items)]
    | .value (.str s) rest => summaryLoop fuel rest (n + 1) (addItem items s)
    | _ => []

def stringArraySummary (fuel : ℕ) (bs : Bytes) : Detail :=
  match Json.skipSpace bs with
  | 0x5B :: rest => summaryLoop itemsField countField complete fuel rest 0 []
  | _ => []

end Summary

/-- The members of an object from the start of one of them, up to the first one named `keys`. -/
def keysOfMembers (complete : Bool) : ℕ → Bytes → Detail
  | 0, _ => []
  | fuel + 1, 0x22 :: bs =>
    match Json.parseString bs with
    | none => []
    | some (name, afterName) =>
      match Json.skipSpace afterName with
      | 0x3A :: value =>
        if name = "keys" then stringArraySummary "keys" "keyCount" complete fuel value
        else match Json.parseValue fuel (Json.skipSpace value) with
          | none => []
          | some (v, rest) =>
            if maxNestingDepth < v.depth then []
            else match Json.skipSpace rest with
              | 0x2C :: next => keysOfMembers complete fuel (Json.skipSpace next)
              | _ => []
      | _ => []
  | _ + 1, _ => []

/-! ## The extractors -/

abbrev Extractor := Bytes → Bool → Detail

/-- An extractor that needs the whole body and decodes it. -/
def decoded {α : Type} (dec : Decoder α) (zero : α) (detail : α → Detail) : Extractor := fun body complete =>
  if complete then (unmarshal dec zero body).elim [] detail else []

def extractRepairType : Extractor := fun body complete =>
  let t := decodeRepairType body
  if !complete || !t.ok then []
  else if t.name ≠ "" then
    if auditSafeToken t.name then [("repairType", .str t.name)] else []
  else if auditSafeToken t.objKey && auditSafeToken t.objValue then
    [("repairType", .str (t.objKey ++ ":" ++ t.objValue))]
  else []

structure WorkerVariable where
  variableName : String := ""
  allNodes : Bool := false

def workerVariable : Decoder WorkerVariable := struct
  [("variable", fun r v => (string r.variableName v).map ({ r with variableName := · })),
   ("allNodes", fun r v => (bool r.allNodes v).map ({ r with allNodes := · }))]

def extractWorkerVariable : Extractor := decoded workerVariable {} fun r =>
  let v := toText (trimSpace (bytes r.variableName))
  if auditSafeToken v then [("variable", .str v), ("allNodes", .bool r.allNodes)] else []

def extractAllNodes : Extractor := decoded (struct [("allNodes", bool)]) false fun b => [("allNodes", .bool b)]

def extractObjectKeys : Extractor := fun body complete =>
  match Json.skipSpace body with
  | 0x7B :: rest => keysOfMembers complete (2 * body.length) (Json.skipSpace rest)
  | _ => []

def extractBlockHashes : Extractor := fun body complete =>
  stringArraySummary "hashes" "hashCount" complete (2 * body.length) body

structure LayoutVersion where
  version : Option ℤ := none
  allowMissingData : Option Bool := none

def layoutVersion : Decoder LayoutVersion := struct
  [("version", fun r v => (pointer 0 int64 r.version v).map ({ r with version := · })),
   ("allowMissingData", fun r v => (pointer false bool r.allowMissingData v).map ({ r with allowMissingData := · }))]

def extractLayoutVersion : Extractor := decoded layoutVersion {} fun r =>
  (r.version.map fun n => ("version", Json.num (.int n))).toList ++
    (r.allowMissingData.map fun b => ("allowMissingData", Json.bool b)).toList

def olderThanSecs : Decoder (Option ℤ) := struct [("olderThanSecs", pointer 0 int64)]

def olderThanDetail (n : ℤ) : Detail := [("olderThanSecs", .num (.int n))]

def extractOlderThanSecs : Extractor := decoded olderThanSecs none fun n => n.elim [] olderThanDetail

def permissionsDetail (p : BucketKeyPerm) : Detail :=
  [("read", .bool p.read), ("write", .bool p.write), ("owner", .bool p.owner)]

def extractPermissions : Extractor := decoded (struct permFields) {} permissionsDetail

def extractImportedKeyID : Extractor := decoded (struct [("accessKeyId", string)]) "" fun id =>
  if auditKeyIDToken id then [("accessKeyId", .str id)] else []

/-! ## The routes -/

/-- A segment of a path pattern; `any` is `[^/]+`. -/
inductive Segment where
  | word (s : String)
  | oneOf (ss : List String)
  | any

def Segment.matches : Segment → Bytes → Bool
  | .word s, seg => seg = bytes s
  | .oneOf ss, seg => ss.any fun s => seg = bytes s
  | .any, seg => seg ≠ []

def matchSegments : List Segment → List Bytes → Bool
  | [], [] => true
  | p :: ps, seg :: segs => p.matches seg && matchSegments ps segs
  | _, _ => false

/-- Whether a path is a slash and these segments. -/
def matchesPath (pattern : List Segment) (path : Bytes) : Bool :=
  matchSegments (.word "" :: pattern) (Path.segments path)

def auditExtractors : List (String × List Segment × Extractor) :=
  [("POST", [.word "api", .word "repair"], extractRepairType),
   ("POST", [.word "api", .word "nodes", .any, .word "repair"], extractRepairType),
   ("POST", [.word "api", .word "nodes", .any, .word "worker-variables"], extractWorkerVariable),
   ("POST", [.word "api", .word "nodes", .any, .word "snapshot"], extractAllNodes),
   ("DELETE", [.word "api", .word "objects", .any, .word "batch"], extractObjectKeys),
   ("POST", [.word "api", .word "blocks", .word "purge"], extractBlockHashes),
   ("POST", [.word "api", .word "cluster", .word "layout", .oneOf ["apply", "revert"]], extractLayoutVersion),
   ("POST", [.word "api", .word "cluster", .word "layout", .word "skip-dead-nodes"], extractLayoutVersion),
   ("POST", [.word "api", .word "buckets", .any, .word "cleanup-uploads"], extractOlderThanSecs),
   ("PUT", [.word "api", .word "buckets", .any, .word "keys", .any], extractPermissions),
   ("POST", [.word "api", .word "keys", .word "import"], extractImportedKeyID)]

def extractorFor (method : String) (path : Bytes) : Option Extractor :=
  (auditExtractors.find? fun e => e.1 = method && matchesPath e.2.1 path).map fun e => e.2.2

/-- The detail of a request, if there is one. One byte more than is used is read, to see whether there is more. -/
def auditDetail (method : String) (path : Bytes) (incoming : Incoming) : Option Detail :=
  match extractorFor method path, readLimited (maxAuditBodyBytes + 1) incoming with
  | some extract, some buf =>
    let d := extract (buf.take maxAuditBodyBytes) (buf.length ≤ maxAuditBodyBytes)
    if d = [] then none else some d
  | _, _ => none

end GarageConsole.Audit
