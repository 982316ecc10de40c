import VscNode.Lib.Collection
import VscNode.Pendulum.Applier
import VscNode.TransactionPool.VscDid

/-!
# Elections

A ratified election names the committee of an epoch and the consensus version it runs
under. Elections are stored by epoch. An election is in force from the block after the
one that brings it until the next one is.
-/

namespace VscNode

open Pendulum (Version)
open TransactionPool (ElectionMember)

structure ElectionResult where
  (epoch blockHeight : ℕ)
  members : List ElectionMember
  version : Version
  deriving DecidableEq

def ElectionResult.accounts (e : ElectionResult) : List String := e.members.map (·.account)

abbrev ElectionDb := Collection ElectionResult.epoch

namespace ElectionDb

def getElectionByHeight (db : ElectionDb) (height : ℕ) : Option ElectionResult :=
  ((db.docs.filter fun e => e.blockHeight < height).insertionSort
    fun e e' => e'.blockHeight ≤ e.blockHeight).head?

def activeConsensusVersion (db : ElectionDb) (height : ℕ) : Version :=
  (db.getElectionByHeight height).elim ⟨0, 0, 0⟩ ElectionResult.version

end ElectionDb

end VscNode
