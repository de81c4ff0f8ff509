import AllaMorra.Machine
import AllaMorra.Kernel
import AllaMorra.HouseAccount
import AllaMorra.BetNote
import AllaMorra.Game
import AllaMorra.Script
import AllaMorra.Runs
import AllaMorra.Refinement
import AllaMorra.Escrow
import AllaMorra.Solvency
import AllaMorra.History
import AllaMorra.Rounds
import AllaMorra.Matches
import AllaMorra.Participants
import AllaMorra.Isolation
import AllaMorra.Calls
import AllaMorra.Provenance
import AllaMorra.Tables
import AllaMorra.Acceptance
import AllaMorra.Payouts
import AllaMorra.Uniqueness
import AllaMorra.Expiry
import AllaMorra.Hex
import AllaMorra.Serial
import AllaMorra.Client
import AllaMorra.Publishing
import AllaMorra.Settling
import AllaMorra.Report
import AllaMorra.Conservation
import AllaMorra.Chronicle
import AllaMorra.Accounting
import AllaMorra.Interleaving
import AllaMorra.Clearing
import AllaMorra.Symmetry
import AllaMorra.WholeGame
import AllaMorra.LastMover
import AllaMorra.Footprint
import AllaMorra.Network
import AllaMorra.Binding
import AllaMorra.Refunding
import AllaMorra.Loop
import AllaMorra.Faucet
import AllaMorra.Reachability
import AllaMorra.Funds
