import Coursework.AddThreads.Termination
import Coursework.SortedList.Correctness
import Coursework.SortedList.Corruption
import Coursework.ListThreads.Contents
import Coursework.ListThreads.Termination
import Coursework.FileSystem.Dangling
import Coursework.FileSystem.RowFormat
import Coursework.FileSystem.Blocks
import Coursework.FileSystem.BlockAddresses
import Coursework.FileSystem.Dump
import Coursework.Roster.Results
import Coursework.Anagrams.Completeness
import Coursework.Anagrams.Loading
import Coursework.Subsets.Sums
import Coursework.Maze.Correctness
import Coursework.Words.Correctness
import Coursework.Words.Copying
import Coursework.LinkedLists.Correctness
import Coursework.LinkedLists.Editing
import Coursework.LinkedLists.Reversal
import Coursework.LogClient.Accounting
import Coursework.OilField.Leaving
import Coursework.OilField.Deaths
import Coursework.OilField.Squirts
import Coursework.OilField.Finding
import Coursework.OilField.Sight
import Coursework.OilField.Ticks
import Coursework.OilField.Removing
import Coursework.Robots.Game
import Coursework.Sensor.Period
import Coursework.Sensor.Settings
import Coursework.Driving.Correctness
import Coursework.Driving.Distances
import Coursework.Driving.Reading
import Coursework.RemoteShell.Transparency
import Coursework.RemoteShell.Inflating
import Coursework.RemoteShell.Duplex
import Coursework.Streams.FixedBlocks
import Coursework.Decrypt.WordArray
import Coursework.Decrypt.FindMatch
import Coursework.Sorts.Correctness
import Coursework.Brackets.CurlyFries
import Coursework.StringArrays.Melding
import Coursework.StringArrays.Duplicates
import Coursework.HttpServer.Server
