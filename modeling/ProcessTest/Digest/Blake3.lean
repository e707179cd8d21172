/-!
# The BLAKE3 hash

The default hash of BLAKE3 with 32 bytes of output.  The input is cut into chunks of 1024 bytes,
a chunk into blocks of 64; the chunks are the leaves of a binary tree whose left subtrees are as
large a power of two as possible.

* `Blake3.compress` — seven rounds over a block.
* `Blake3.hash` — the bytes of the hash.
-/

set_option autoImplicit false

namespace ProcessTest.Blake3

abbrev Words := Vector UInt32 8
abbrev Block := Vector UInt32 16

/-- The initial chaining value. -/
def iv : Words :=
  #v[0x6A09E667, 0xBB67AE85, 0x3C6EF372, 0xA54FF53A, 0x510E527F, 0x9B05688C, 0x1F83D9AB, 0x5BE0CD19]

/-- The order in which a round passes the words of the block on to the next one. -/
def permutation : Vector (Fin 16) 16 :=
  #v[2, 6, 3, 10, 7, 0, 4, 13, 1, 11, 12, 5, 9, 14, 15, 8]

def chunkStart : UInt32 := 1
def chunkEnd : UInt32 := 2
def parentFlag : UInt32 := 4
def rootFlag : UInt32 := 8

def rotateRight (w : UInt32) (n : UInt32) : UInt32 := (w >>> n) ||| (w <<< (32 - n))

/-- The quarter round on four words of the state. -/
def mix (s : Block) (a b c d : Fin 16) (x y : UInt32) : Block :=
  let s := s.set a (s[a] + s[b] + x)
  let s := s.set d (rotateRight (s[d] ^^^ s[a]) 16)
  let s := s.set c (s[c] + s[d])
  let s := s.set b (rotateRight (s[b] ^^^ s[c]) 12)
  let s := s.set a (s[a] + s[b] + y)
  let s := s.set d (rotateRight (s[d] ^^^ s[a]) 8)
  let s := s.set c (s[c] + s[d])
  s.set b (rotateRight (s[b] ^^^ s[c]) 7)

/-- Four columns, then four diagonals. -/
def round (s m : Block) : Block :=
  let s := mix s 0 4 8 12 m[0] m[1]
  let s := mix s 1 5 9 13 m[2] m[3]
  let s := mix s 2 6 10 14 m[4] m[5]
  let s := mix s 3 7 11 15 m[6] m[7]
  let s := mix s 0 5 10 15 m[8] m[9]
  let s := mix s 1 6 11 12 m[10] m[11]
  let s := mix s 2 7 8 13 m[12] m[13]
  mix s 3 4 9 14 m[14] m[15]

/-- The words of a block in the order of the next round. -/
def permute (m : Block) : Block := Vector.ofFn fun i => m[permutation[i]]

/-- Some rounds. -/
def rounds : Nat → Block → Block → Block
  | 0, s, _ => s
  | n + 1, s, m => rounds n (round s m) (permute m)

/-- What is compressed at a node of the tree. -/
structure Node where
  chaining : Words
  block : Block
  counter : UInt64
  length : UInt32
  flags : UInt32

/-- The chaining value of a node. -/
def compress (n : Node) : Words :=
  let s : Block :=
    #v[n.chaining[0], n.chaining[1], n.chaining[2], n.chaining[3],
       n.chaining[4], n.chaining[5], n.chaining[6], n.chaining[7],
       iv[0], iv[1], iv[2], iv[3],
       n.counter.toUInt32, (n.counter >>> 32).toUInt32, n.length, n.flags]
  let s := rounds 7 s n.block
  Vector.ofFn fun i : Fin 8 => s[i.val] ^^^ s[i.val + 8]

/-- The word of four bytes, the lowest first. -/
def word (bytes : List UInt8) : UInt32 :=
  bytes.foldr (fun b w => b.toUInt32 + (w <<< 8)) 0

/-- A block of at most 64 bytes, filled up with zeros. -/
def blockOf (bytes : List UInt8) : Block :=
  Vector.ofFn fun i => word ((bytes.drop (4 * i.val)).take 4)

/-- Cuts a list into pieces of a size; the empty list is one empty piece.  `fuel` bounds the
number of pieces. -/
def pieces {α : Type} (size : Nat) : Nat → List α → List (List α)
  | 0, xs => [xs]
  | fuel + 1, xs =>
    if xs.length ≤ size then [xs] else xs.take size :: pieces size fuel (xs.drop size)

/-- The last node of a chunk, with the chaining value of its earlier blocks. -/
def chunkNode (counter : UInt64) (first : Bool) (chaining : Words) : List (List UInt8) → Node
  | [] => ⟨chaining, blockOf [], counter, 0, chunkStart ||| chunkEnd⟩
  | [last] =>
    ⟨chaining, blockOf last, counter, last.length.toUInt32,
      (if first then chunkStart else 0) ||| chunkEnd⟩
  | block :: rest =>
    let cv := compress ⟨chaining, blockOf block, counter, block.length.toUInt32,
      if first then chunkStart else 0⟩
    chunkNode counter false cv rest

/-- The node over two subtrees. -/
def parentNode (left right : Words) : Node :=
  ⟨iv, left ++ right, 0, 64, parentFlag⟩

/-- The largest power of two below a number of chunks. -/
def leftSize (n : Nat) : Nat := Nat.pow 2 (Nat.log2 (n - 1))

/-- The top node over chunks, the first of which has the given number.  `fuel` bounds the depth. -/
def treeNode : Nat → Nat → List (List UInt8) → Node
  | 0, first, chunks =>
    chunkNode first.toUInt64 true iv (pieces 64 16 (chunks.headD []))
  | fuel + 1, first, chunks =>
    match chunks with
    | [] => chunkNode first.toUInt64 true iv [[]]
    | [chunk] => chunkNode first.toUInt64 true iv (pieces 64 16 chunk)
    | _ =>
      let n := leftSize chunks.length
      parentNode (compress (treeNode fuel first (chunks.take n)))
        (compress (treeNode fuel (first + n) (chunks.drop n)))

/-- The four bytes of a word, the lowest first. -/
def wordBytes (w : UInt32) : List UInt8 :=
  [w.toUInt8, (w >>> 8).toUInt8, (w >>> 16).toUInt8, (w >>> 24).toUInt8]

/-- The 32 bytes of the hash. -/
def hash (bytes : List UInt8) : List UInt8 :=
  let chunks := pieces 1024 (bytes.length / 1024 + 1) bytes
  let node := treeNode chunks.length 0 chunks
  (compress { node with counter := 0, flags := node.flags ||| rootFlag }).toList.flatMap wordBytes

end ProcessTest.Blake3
