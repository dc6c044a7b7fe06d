import LastHero.Support.Runs
import LastHero.Support.LengthPrefix
import LastHero.Receive.Robustness
import LastHero.Receive.Serving
import LastHero.Support.CInt
import LastHero.Threads.Database
import LastHero.Threads.Timers
import LastHero.Threads.Announce
import LastHero.Threads.Completions
import LastHero.Threads.Sessions
import LastHero.Boss.Token
import LastHero.Combat.Viewers
import LastHero.Combat.Weapons
import LastHero.Combat.Range
import LastHero.Combat.Ledger
import LastHero.Monster.Death
import LastHero.Combat.Observers
import LastHero.Combat.Vitality
import LastHero.Threads.Cooldowns
import LastHero.Boss.Bones
import LastHero.Threads.ViewLists
import LastHero.Game.OwnBytes
import LastHero.Threads.Isolation
import LastHero.Path.Search
import LastHero.Boss.Target
import LastHero.Monster.Targets
import LastHero.Game.Tracking
import LastHero.Monster.Leaving
import LastHero.Monster.Fallen
import LastHero.Combat.Hidden
import LastHero.Combat.Stats
import LastHero.Path.Overlap
import LastHero.Monster.NpcMove
import LastHero.Threads.Login
import LastHero.Threads.Statements
import LastHero.Threads.Dispatch
import LastHero.KDTree.Insert
import LastHero.KDTree.Delete
import LastHero.Terrain.Interpolation
import LastHero.Terrain.Queries
import LastHero.Boss.Chase
import LastHero.Server.BossAttacks
import LastHero.Server.BossFight
import LastHero.Server.Roster
import LastHero.Server.Logins
import LastHero.Game.Wire
import LastHero.Receive.Requests
import LastHero.Server.Pursuit
import LastHero.Server.Endings
import LastHero.Server.Accounts
