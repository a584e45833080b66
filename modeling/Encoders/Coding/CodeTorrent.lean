import Encoders.Coding.NC
import Encoders.Lib.Double

/-!
# Files as generations of coded blocks

`networkcoding/codetorrent.cpp`. A file is cut into blocks, the blocks into
generations, and each generation is coded on its own. The server loads a
generation and encodes it; the client stores innovative blocks until every
generation is complete, decodes one generation after the other and writes each to
the output file.

The client keeps blocks in memory up to a limit and then spills all blocks of a
randomly drawn generation to a file per generation, coefficients and symbols
packed one block after the other.

Sizes are `int` in the source. The two constructors cut what they are given to that
and have no meaning where a size is not positive or a product is no `int`; behind
them sizes are natural numbers. The block count is computed as the ceiling of a
floating-point quotient, which is exact for every `int`. The server's arithmetic can
leave the naturals, so the block counts both sides derive are integers.

The name of a spill file is the name of the output and the number of the generation,
which is printed into three bytes. From generation 100 on it does not fit, and what
the process does after that is anybody's guess; a client remembers that it happened.
-/

namespace Encoders.Coding

open Encoders.Lib

/-- A value that is stored in an `int`. -/
def cutToInt (x : Int) : Int := x.bmod 4294967296

/-- `ceil(file_size * 8 / field_size / block_size)` for symbols of eight bits. -/
def numBlocks (fileSize blockSize : Nat) : Nat := (fileSize + blockSize - 1) / blockSize

/-- The branch both sides share: even generations, or one more for the rest. -/
def splitBlocks (blocks perGen numGens : Nat) : List Int :=
  if perGen * numGens = blocks then List.replicate numGens (perGen : Int)
  else List.replicate numGens (perGen : Int) ++ [(blocks : Int) - perGen * numGens]

/-- `LoadFileInfo`: the server's `num_blocks_gen`. It starts from at least one generation. -/
def loadFileInfo (fileSize blockSize perGen : Nat) : List Int :=
  let blocks := numBlocks fileSize blockSize
  let numGens := blocks / perGen
  splitBlocks blocks perGen (if numGens = 0 then 1 else numGens)

/-- The same computation in `InitClient`. -/
def clientFileInfo (fileSize blockSize perGen : Nat) : List Int :=
  let blocks := numBlocks fileSize blockSize
  splitBlocks blocks perGen (blocks / perGen)

/-! ## Server -/

/-- `NthSymbol`: the symbol of `fsize` bits at position `pos`. -/
def nthSymbol (buf : List Symbol) (fsize pos : Nat) : Symbol :=
  let numsyms := 8 / fsize
  let sym := (buf.getD (pos / numsyms) 0).toNat
  let sym := sym >>> ((numsyms - pos % numsyms - 1) * fsize)
  Symbol.ofNat (sym &&& (255 >>> (8 - fsize)))

/--
`LoadFile(gen)`: the blocks of one generation, the last block of the file padded
with zeros. `none` is the error exit: the generation reads short and is not the
last one. It is also where `gen_size` or `pos` is no `int`, or the size is negative.
-/
def loadFile (file : List Symbol) (fileSize : Nat) (info : List Int) (b gen : Nat) :
    Option (List (List Symbol)) := do
  let n ← info[gen]?
  if n < 0 then none
  else
    let n := n.toNat
    let pos := (info.take gen).sum.toNat * b
    let fbuf := (file.drop pos).take (b * n)
    let temp := fbuf.length
    let lastGen := temp + pos = fileSize ∧ gen = info.length - 1
    if 2147483648 ≤ b * n ∨ 2147483648 ≤ pos then none
    else if ¬ lastGen ∧ temp ≠ b * n then none
    else
      some ((List.range n).map (fun i =>
        if lastGen ∧ i = n - 1 then
          let lastBlockSize := temp - (n - 1) * b
          (List.range lastBlockSize).map (fun j => nthSymbol fbuf 8 (b * i + j)) ++
            List.replicate (b - lastBlockSize) 0
        else (List.range b).map (fun j => nthSymbol fbuf 8 (b * i + j))))

/-- `Encode(gen)` -/
def encode (file : List Symbol) (fileSize : Nat) (info : List Int) (b gen : Nat)
    (choice : Nat → Symbol) : Option CodedBlock := do
  let data ← loadFile file fileSize info b gen
  if data.length = 0 then none
  else some (encodeBlock data gen data.length b choice)

/--
`encodeFragment` of the encoder service for the block size as fragment size: the
`q`-th fragment of the file, read into a zeroed buffer of the block size, becomes
the only block of fake data and is coded with a unit vector.
-/
def encodeFragment (file : List Symbol) (b q : Nat) : CodedBlock :=
  let n := numBlocks file.length b
  let fragment := (file.drop ((q - 1) * b)).take b
  let buffer := fragment ++ List.replicate (b - fragment.length) 0
  let fakeData := (List.range n).map (fun i => if i = q - 1 then buffer else List.replicate b 0)
  encodeSingleBlock fakeData 0 n b (q - 1)

/-! ## Client -/

/-- The client's members, the spill files of its generations, and whether the number of a
generation was written past the three bytes it has in their names. -/
structure CodeTorrent where
  fileSize : Nat
  blockSize : Nat
  numBlocksGen : List Nat
  bufferSize : Nat
  genCompleted : Nat
  rankVec : List Nat
  rankVecInBuf : List Nat
  mHelpful : List (List (List Symbol))
  buf : List CodedBlock
  tempFiles : List (List Symbol)
  overrun : Bool

/-- `GetNumGens()` -/
def CodeTorrent.numGens (ct : CodeTorrent) : Nat := ct.numBlocksGen.length

/-- `InitClient` for sizes that are positive, where there is no spill file yet. -/
def initClient (fileSize blockSize perGen : Nat) : CodeTorrent :=
  let gens := (clientFileInfo fileSize blockSize perGen).map Int.toNat
  { fileSize := fileSize
    blockSize := blockSize
    numBlocksGen := gens
    bufferSize := perGen * 2
    genCompleted := 0
    rankVec := gens.map (fun _ => 0)
    rankVecInBuf := gens.map (fun _ => 0)
    mHelpful := gens.map (fun n => List.replicate n (List.replicate n 0))
    buf := []
    tempFiles := gens.map (fun _ => [])
    overrun := false }

/--
A client beside the spill files that are there when it is constructed. An earlier client for
the same output may have left some: nothing removes them.
-/
def CodeTorrent.withLeftover (ct : CodeTorrent) (leftover : Nat → List Symbol) : CodeTorrent :=
  { ct with tempFiles := (List.range ct.numGens).map leftover }

/--
The constructor for a client. `none` is where an array has no positive length or
`buffer_size` is no `int`.
-/
def CodeTorrent.client (numBlocksPerGen blockSize fileSize : Int) (leftover : Nat → List Symbol) :
    Option CodeTorrent :=
  if 0 < numBlocksPerGen ∧ 0 < blockSize ∧ 0 < fileSize ∧ numBlocksPerGen * 2 < 2147483648 then
    some ((initClient fileSize.toNat blockSize.toNat numBlocksPerGen.toNat).withLeftover leftover)
  else none

/--
The constructor of `codetorrentdecoder`, which has `size_t` sizes and asks for one
generation. `none` is also where the quotient is no `int`.
-/
def codetorrentdecoder (fileSize blockSize : Nat) (leftover : Nat → List Symbol) :
    Option CodeTorrent :=
  let width := cutToInt blockSize
  if width ≤ 0 then none
  else
    let numBlocksPerGen := ⌈toDouble (toDouble fileSize / width)⌉
    if 2147483648 ≤ numBlocksPerGen then none
    else CodeTorrent.client (if numBlocksPerGen = 0 then 1 else numBlocksPerGen) width
      (cutToInt fileSize) leftover

namespace CodeTorrent

/-- `store_block` of the decoder hands a block on under the client's header. -/
def handed (ct : CodeTorrent) (block : CodedBlock) : CodedBlock :=
  let n := ct.numBlocksGen.getD block.gen 0
  ⟨block.gen, n, ct.blockSize, block.coeffs.take n, block.sums.take ct.blockSize⟩

/-- `sprintf(ext2, "%d", gen)` with its terminator in three bytes. -/
def nameFits (gen : Nat) : Bool := gen < 100

/-- `PushGenBuf`: append the block to the file of its generation. -/
def pushGenBuf (ct : CodeTorrent) (block : CodedBlock) : CodeTorrent :=
  let n := ct.numBlocksGen.getD block.gen 0
  let bytes := block.coeffs.take n ++ block.sums.take ct.blockSize
  { ct with
    tempFiles := ct.tempFiles.set block.gen (ct.tempFiles.getD block.gen [] ++ bytes)
    overrun := ct.overrun || !nameFits block.gen }

/--
`ReadGenBuf`: the `k`-th block of the file of a generation. The position is an `int`,
and where it is negative `fseek` refuses it and the file is read from its beginning.
-/
def readGenBuf (ct : CodeTorrent) (gen k : Nat) : CodedBlock :=
  let n := ct.numBlocksGen.getD gen 0
  let position := cutToInt ((n + ct.blockSize : Nat) * k)
  let bytes := (ct.tempFiles.getD gen []).drop position.toNat
  ⟨gen, n, ct.blockSize, bytes.take n, (bytes.drop n).take ct.blockSize⟩

/-- The eviction loop of `FlushBuf`, over positions `i - 1, …, 0` of the buffer. -/
def evictLoop (gen : Nat) : Nat → CodeTorrent → CodeTorrent
  | 0, ct => ct
  | i + 1, ct =>
      let ct :=
        match ct.buf[i]? with
        | none => ct
        | some block =>
            if block.gen = gen then
              let ct := ct.pushGenBuf block
              { ct with
                buf := ct.buf.eraseIdx i
                rankVecInBuf := ct.rankVecInBuf.set gen (ct.rankVecInBuf.getD gen 0 - 1) }
            else ct
      if ct.rankVecInBuf.getD gen 0 = 0 then ct else evictLoop gen i ct

/--
`FlushBuf`. The generation is drawn until one with blocks in memory comes up;
`draws` are the random numbers, and without a hit among them the call has not
returned.
-/
def flushBuf (ct : CodeTorrent) (draws : List Nat) : Option CodeTorrent :=
  if ct.buf.length < ct.bufferSize then some ct
  else do
    let gen ← (draws.map (· % ct.numGens)).find? (fun g => 0 < ct.rankVecInBuf.getD g 0)
    some (evictLoop gen ct.buf.length ct)

/-- `StoreBlock`: the client afterwards, and whether the block was helpful. -/
def storeBlock (ct : CodeTorrent) (draws : List Nat) (block : CodedBlock) :
    Option (CodeTorrent × Bool) :=
  let gen := block.gen
  match isHelpful (ct.rankVec.getD gen 0) (ct.mHelpful.getD gen []) block with
  | none => some (ct, false)
  | some m => do
      let rank := ct.rankVec.getD gen 0 + 1
      let ct := { ct with
        mHelpful := ct.mHelpful.set gen m
        buf := ct.buf ++ [block]
        rankVec := ct.rankVec.set gen rank
        rankVecInBuf := ct.rankVecInBuf.set gen (ct.rankVecInBuf.getD gen 0 + 1) }
      let ct ← if ct.bufferSize ≤ ct.buf.length then ct.flushBuf draws else some ct
      let ct :=
        if rank = ct.numBlocksGen.getD gen 0 then { ct with genCompleted := ct.genCompleted + 1 }
        else ct
      some (ct, true)

/-- The blocks of a generation: those in memory, then those on file. -/
def genBlocks (ct : CodeTorrent) (gen : Nat) : List CodedBlock :=
  ct.buf.filter (fun x => x.gen = gen) ++
    (List.range (ct.rankVec.getD gen 0 - ct.rankVecInBuf.getD gen 0)).map (ct.readGenBuf gen)

/-- `ReEncode(gen)` -/
def reEncode (ct : CodeTorrent) (gen : Nat) (choice : Nat → Symbol) : Option CodedBlock :=
  reEncodeBlock (ct.genBlocks gen) gen (ct.numBlocksGen.getD gen 0) ct.blockSize choice

/-- `WriteFile(gen)`: what the output file holds afterwards. It is opened for writing anew. -/
def writeFile (ct : CodeTorrent) (gData : List (List Symbol)) (gen : Nat) : List Symbol :=
  let n := ct.numBlocksGen.getD gen 0
  (List.range n).flatMap (fun j =>
    if gen = ct.numGens - 1 ∧ j = n - 1 then
      let pos := (ct.numBlocksGen.take (ct.numGens - 1)).sum
      (gData.getD j []).take (ct.fileSize - (pos + n - 1) * ct.blockSize)
    else (gData.getD j []).take ct.blockSize)

/-- `DecodeGen(gen)`: the shared data array and the output file afterwards. -/
def decodeGen (ct : CodeTorrent) (gData : List (List Symbol)) (gen : Nat) :
    Option (List (List Symbol) × List Symbol) := do
  let gData ← ncDecode (ct.genBlocks gen) gData
  some (gData, ct.writeFile gData gen)

/-- The loop of `Decode()` over the generations that are left. -/
def decodeGens (ct : CodeTorrent) : List Nat → List (List Symbol) → List Symbol →
    Option (List Symbol)
  | [], _, out => some out
  | gen :: gens, gData, _ => do
      let (gData, out) ← ct.decodeGen gData gen
      ct.decodeGens gens gData out

/-- `Decode()`: the output file, or `none` when it returns false. -/
def decode (ct : CodeTorrent) : Option (List Symbol) :=
  if ct.genCompleted ≠ ct.numGens then none
  else
    ct.decodeGens (List.range ct.numGens)
      (List.replicate (ct.numBlocksGen.getD 0 0) (List.replicate ct.blockSize 0)) []

end CodeTorrent

/-! ## Runs of a client -/

/-- Store blocks one after the other, each with its random draws; the answers are kept. -/
def storeAll : CodeTorrent → List (List Nat × CodedBlock) → Option (CodeTorrent × List Bool)
  | ct, [] => some (ct, [])
  | ct, (draws, block) :: rest => do
      let (ct, helpful) ← ct.storeBlock draws block
      let (ct, answers) ← storeAll ct rest
      some (ct, helpful :: answers)

end Encoders.Coding
