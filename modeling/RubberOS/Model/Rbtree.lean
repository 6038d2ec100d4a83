import Mathlib.Data.Int.Notation
import RubberOS.Model.Machine
import RubberOS.ToMathlib.ParentPointers

/-! # The red-black tree of libcoll

`struct rbtree` and the `struct rbtree_node` objects that it links. No function writes the field
`key`, so the keys are a function of their own, and the other fields are `TreeLinks`: `child .left`
and `child .right` are the fields `left` and `right`. The recursive functions and the loops run on a
counter and stop with `nonterminating` when it is used up.
-/

namespace RubberOS.Model.Rbtree

open RedBlackTrees ParentPointers

variable {ν : Type} [DecidableEq ν]

/-- A pointer that is about to be dereferenced. -/
def deref (ptr : Option ν) : Result ν :=
  match ptr with
  | some node => .ok node
  | none => .error .nullDereference

def isBlkOrNil (tree : TreeLinks ν) (node : Option ν) : Bool :=
  match node with
  | none => true
  | some node => tree.color node = .blk

def isRed (tree : TreeLinks ν) (node : Option ν) : Bool :=
  match node with
  | none => false
  | some node => tree.color node = .red

def getSibling (tree : TreeLinks ν) (node : ν) : Option ν :=
  match tree.parent node with
  | none => none
  | some parent => if tree.child .left parent = some node then tree.child .right parent else tree.child .left parent

/-! ## Lookup -/

/-- `struct rbtree_find_result`. -/
structure RbtreeFindResult (ν : Type) where
  lower : Option ν
  upper : Option ν
  toInsert : Option ν

/-- The loop of `rbtree_find`. -/
def findFrom (keys : ν → ℤ) (tree : TreeLinks ν) (key : ℤ) :
    ℕ → RbtreeFindResult ν → (next node : Option ν) → Result (RbtreeFindResult ν)
  | 0, _, _, _ => .error .nonterminating
  | _ + 1, result, none, node => .ok { result with toInsert := node }
  | fuel + 1, result, some node, _ =>
    if keys node < key then
      findFrom keys tree key fuel { result with lower := some node } (tree.child .right node) (some node)
    else if keys node > key then
      findFrom keys tree key fuel { result with upper := some node } (tree.child .left node) (some node)
    else .ok { result with lower := some node, upper := some node }

def rbtreeFind (fuel : ℕ) (keys : ν → ℤ) (tree : TreeLinks ν) (key : ℤ) : Result (RbtreeFindResult ν) :=
  findFrom keys tree key fuel ⟨none, none, none⟩ tree.root none

def getMinNode (tree : TreeLinks ν) : ℕ → ν → Result ν
  | 0, _ => .error .nonterminating
  | fuel + 1, node =>
    match tree.child .left node with
    | none => .ok node
    | some left => getMinNode tree fuel left

/-! ## Traversal -/

def rbtreeFirst (fuel : ℕ) (tree : TreeLinks ν) : Result (Option ν) :=
  match tree.root with
  | none => .ok none
  | some root => some <$> getMinNode tree fuel root

/-- The loop of `rbtree_next`. -/
def climb (tree : TreeLinks ν) : ℕ → ν → Result (Option ν)
  | 0, _ => .error .nonterminating
  | fuel + 1, node =>
    match tree.parent node with
    | none => .ok none
    | some parent => if tree.child .left parent = some node then .ok (some parent) else climb tree fuel parent

def rbtreeNext (fuel : ℕ) (tree : TreeLinks ν) (node : ν) : Result (Option ν) :=
  match tree.child .right node with
  | some right => some <$> getMinNode tree fuel right
  | none => climb tree fuel node

/-- The nodes that repeated calls of `rbtree_next` reach, the given one first. -/
def visitFrom (fuel : ℕ) (tree : TreeLinks ν) : ℕ → Option ν → Result (List ν)
  | 0, _ => .error .nonterminating
  | _ + 1, none => .ok []
  | turns + 1, some node => do
    let next ← rbtreeNext fuel tree node
    let rest ← visitFrom fuel tree turns next
    return node :: rest

/-- The loop `for (node = rbtree_first(tree); node != NULL; node = rbtree_next(node))`. -/
def visitAll (fuel turns : ℕ) (tree : TreeLinks ν) : Result (List ν) := do
  let first ← rbtreeFirst fuel tree
  visitFrom fuel tree turns first

/-! ## Rotations -/

/-- The rotation that moves `node` down to the given side; the child on its other side rises. -/
def rotate (side : Side) (text : String) (tree : TreeLinks ν) (node : ν) : Result (TreeLinks ν) := do
  let parent := tree.parent node
  assert (tree.child side.other node ≠ none) text
  let riser ← deref (tree.child side.other node)
  let tree := tree.reparent (tree.child side riser) (some node)
  let tree := tree.setChild side.other node (tree.child side riser)
  let tree := tree.setParent node (some riser)
  let tree := tree.setChild side riser (some node)
  let tree := tree.setParent riser parent
  return tree.relink parent node (some riser)

def rotateLeft (tree : TreeLinks ν) (node : ν) : Result (TreeLinks ν) := rotate .left "right != ((void *)0)" tree node

def rotateRight (tree : TreeLinks ν) (node : ν) : Result (TreeLinks ν) := rotate .right "left != ((void *)0)" tree node

/-! ## Insertion -/

/-- Case 5 of `insertion_balancing`. -/
def insertionRotateGrand (tree : TreeLinks ν) (node parent grand : ν) : Result (TreeLinks ν) :=
  let tree := tree.setColor parent .blk
  let tree := tree.setColor grand .red
  if tree.child .left parent = some node then rotateRight tree grand else rotateLeft tree grand

/-- Cases 4 and 5 of `insertion_balancing`. -/
def insertionRotate (tree : TreeLinks ν) (node parent grand : ν) : Result (TreeLinks ν) := do
  let rotated ←
    if tree.child .right parent = some node ∧ tree.child .left grand = some parent then some <$> rotateLeft tree parent
    else if tree.child .left parent = some node ∧ tree.child .right grand = some parent then
      some <$> rotateRight tree parent
    else .ok none
  match rotated with
  | some tree =>
    let node := parent
    let parent ← deref (tree.parent node)
    let grand ← deref (tree.parent parent)
    insertionRotateGrand tree node parent grand
  | none => insertionRotateGrand tree node parent grand

def insertionBalancing : ℕ → TreeLinks ν → ν → Result (TreeLinks ν)
  | 0, _, _ => .error .nonterminating
  | fuel + 1, tree, node =>
    match tree.parent node with
    | none => .ok (tree.setColor node .blk)
    | some parent =>
      let tree := tree.setColor node .red
      if tree.color parent = .blk then .ok tree
      else do
        let grand := tree.parent parent
        let uncle := getSibling tree parent
        if isRed tree uncle then
          let tree := tree.setColor parent .blk
          let uncle ← deref uncle
          let tree := tree.setColor uncle .blk
          let grand ← deref grand
          insertionBalancing fuel (tree.setColor grand .red) grand
        else
          -- either test of case 4 or the store of case 5 dereferences `grand`
          let grand ← deref grand
          insertionRotate tree node parent grand

def rbtreeInsert (fuel : ℕ) (keys : ν → ℤ) (tree : TreeLinks ν) (node : ν) : Result (TreeLinks ν) :=
  if tree.root = none then
    let tree := tree.setParent node none
    let tree := (tree.setChild .right node none).setChild .left node none
    let tree := tree.setColor node .blk
    .ok (tree.setRoot (some node))
  else do
    let r ← rbtreeFind fuel keys tree (keys node)
    match r.toInsert with
    | none => .ok tree
    | some toInsert =>
      let tree := tree.setParent node (some toInsert)
      let tree := (tree.setChild .right node none).setChild .left node none
      let tree := if keys node < keys toInsert then tree.setChild .left toInsert (some node)
        else tree.setChild .right toInsert (some node)
      insertionBalancing fuel tree node

/-! ## Removal -/

/-- Case 2 of `removal_balancing`: a red sibling is rotated above the parent. -/
def removalRedSibling (tree : TreeLinks ν) (parent sibling : ν) : Result (TreeLinks ν × Option ν) :=
  if tree.color sibling = .red then do
    let tree := tree.setColor sibling .blk
    let tree := tree.setColor parent .red
    if tree.child .right parent = some sibling then
      let inner := tree.child .left sibling
      let tree ← rotateLeft tree parent
      return (tree, inner)
    else
      let inner := tree.child .right sibling
      let tree ← rotateRight tree parent
      return (tree, inner)
  else .ok (tree, some sibling)

/-- Case 5 of `removal_balancing`: the red child on the inner side is rotated above the sibling. -/
def removalRotateSibling (tree : TreeLinks ν) (parent sibling : ν) : Result (TreeLinks ν × ν) :=
  if tree.child .right parent = some sibling ∧ isRed tree (tree.child .left sibling) ∧
      isBlkOrNil tree (tree.child .right sibling) then do
    let tree := tree.setColor sibling .red
    let inner ← deref (tree.child .left sibling)
    let tree := tree.setColor inner .blk
    let tree ← rotateRight tree sibling
    let sibling ← deref (tree.parent sibling)
    return (tree, sibling)
  else if tree.child .left parent = some sibling ∧ isRed tree (tree.child .right sibling) ∧
      isBlkOrNil tree (tree.child .left sibling) then do
    let tree := tree.setColor sibling .red
    let inner ← deref (tree.child .right sibling)
    let tree := tree.setColor inner .blk
    let tree ← rotateLeft tree sibling
    let sibling ← deref (tree.parent sibling)
    return (tree, sibling)
  else .ok (tree, sibling)

/-- Case 6 of `removal_balancing`. -/
def removalRotateParent (tree : TreeLinks ν) (parent sibling : ν) : Result (TreeLinks ν) := do
  let tree := tree.setColor sibling (tree.color parent)
  let tree := tree.setColor parent .blk
  if tree.child .right parent = some sibling then
    let outer ← deref (tree.child .right sibling)
    rotateLeft (tree.setColor outer .blk) parent
  else
    let outer ← deref (tree.child .left sibling)
    rotateRight (tree.setColor outer .blk) parent

/-- Cases 4 to 6 of `removal_balancing`. -/
def removalSettle (tree : TreeLinks ν) (parent sibling : ν) : Result (TreeLinks ν) :=
  if tree.color parent = .red ∧ isBlkOrNil tree (tree.child .left sibling) ∧
      isBlkOrNil tree (tree.child .right sibling) then
    .ok ((tree.setColor sibling .red).setColor parent .blk)
  else do
    let (tree, sibling) ← removalRotateSibling tree parent sibling
    removalRotateParent tree parent sibling

def removalBalancing : ℕ → TreeLinks ν → Option ν → Result (TreeLinks ν)
  | 0, _, _ => .error .nonterminating
  | _ + 1, tree, none => .ok tree
  | fuel + 1, tree, some sibling => do
    let parent ← deref (tree.parent sibling)
    let (tree, sibling) ← removalRedSibling tree parent sibling
    let sibling ← deref sibling
    if tree.color parent = .blk ∧ isBlkOrNil tree (tree.child .left sibling) ∧
        isBlkOrNil tree (tree.child .right sibling) then
      let tree := tree.setColor sibling .red
      removalBalancing fuel tree (getSibling tree parent)
    else removalSettle tree parent sibling

/-- The successor takes over the links and the color of the node, and the node's children. -/
def takeFields (tree : TreeLinks ν) (parent : Option ν) (node successor : ν) : TreeLinks ν :=
  let tree := tree.setParent successor parent
  let tree := tree.setChild .left successor (tree.child .left node)
  let tree := tree.setChild .right successor (tree.child .right node)
  let tree := tree.setColor successor (tree.color node)
  let tree := tree.reparent (tree.child .left successor) (some successor)
  tree.reparent (tree.child .right successor) (some successor)

/-- What `rbtree_remove` does after it has removed the successor of a node with two children. -/
def replaceBySuccessor (tree : TreeLinks ν) (parent : Option ν) (node successor : ν) : TreeLinks ν :=
  let tree := match parent with
    | some parent => if tree.child .left parent = some node then tree.setChild .left parent (some successor)
        else tree.setChild .right parent (some successor)
    | none => tree
  let tree := takeFields tree parent node successor
  if tree.root = some node then tree.setRoot (some successor) else tree

/-- `rbtree_remove` links the parent of a node to its only child, and finds the node's sibling. -/
def unlinkNode (tree : TreeLinks ν) (parent : Option ν) (node : ν) (child : Option ν) : TreeLinks ν × Option ν :=
  match parent with
  | some parent =>
    if tree.child .left parent = some node then
      let tree := tree.setChild .left parent child
      (tree, tree.child .right parent)
    else
      let tree := tree.setChild .right parent child
      (tree, tree.child .left parent)
  | none => (tree.setRoot child, none)

/-- The part of `rbtree_remove` for a node with at most one child. -/
def removeSingle (fuel : ℕ) (tree : TreeLinks ν) (parent : Option ν) (node : ν) : Result (TreeLinks ν) :=
  let child := if tree.child .left node ≠ none then tree.child .left node else tree.child .right node
  let (tree, sibling) := unlinkNode tree parent node child
  match child with
  | some child => .ok ((tree.setParent child parent).setColor child .blk)
  | none => if tree.color node = .red then .ok tree else removalBalancing fuel tree sibling

def rbtreeRemove : ℕ → TreeLinks ν → ν → Result (TreeLinks ν)
  | 0, _, _ => .error .nonterminating
  | fuel + 1, tree, node =>
    let parent := tree.parent node
    if tree.child .left node ≠ none ∧ tree.child .right node ≠ none then do
      let right ← deref (tree.child .right node)
      let successor ← getMinNode tree fuel right
      let tree ← rbtreeRemove fuel tree successor
      return replaceBySuccessor tree parent node successor
    else removeSingle fuel tree parent node

end RubberOS.Model.Rbtree
