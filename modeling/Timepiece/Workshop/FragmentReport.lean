import Timepiece.Link.Framing

/-!
# How an upload is cut

A report on the chunks and packets of an upload, for people.

## Main definitions

* `FragmentReport.roleList` — the places of the packets of a chunk.
* `FragmentReport.text` — the report.
-/

namespace Timepiece.FragmentReport

/-- The places of the packets of a chunk; several in the middle are counted. -/
def roleList (roles : List PacketRole) : String :=
  match roles.count .middle with
  | 0 => ", ".intercalate (roles.map PacketRole.name)
  | 1 => "first, middle, last"
  | middles => s!"first, middle x{middles}, last"

/-- How many bytes of a chunk its packets hold. -/
def dataLength (packets : List Bytes) : Nat := (packets.flatMap (List.drop 1)).length

/-- The line of a chunk. -/
def chunkLine (packets : List Bytes) (index : Nat) : String :=
  s!"  chunk {index}: {dataLength packets} bytes, {packets.length} packets " ++
    "[" ++ roleList (roles packets) ++ "]\n"

/-- The report on the upload of a payload. -/
def text (payload : Bytes) : String :=
  let plan := uploadPlan payload
  s!"{payload.length} bytes in {plan.length} chunks, {packetCount plan + 2} writes " ++
    "including init and commit\n" ++
    String.join (plan.zipIdx.map fun (packets, index) => chunkLine packets index)

end Timepiece.FragmentReport
